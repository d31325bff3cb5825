import DataGrid.Number.Binary64
import DataGrid.Number.Decimal.Binary64
import DataGrid.Proofs.RoundedQuotients
import Mathlib.Tactic.Ring

/-!
# Decimals of binary numbers

The conversion of a binary number to a decimal loses digits on the way: it halves odd mantissas
and drops places. No step passes a whole number, since each of them takes a whole number to itself
and keeps the order. So the decimal lies between the same whole numbers as the binary number, and
there is one as long as the binary number is within the range of mantissas.
-/

namespace DataGrid.Number

/-- Whether `m' / u'` lies between the same whole numbers as `m / u`. -/
structure SameBounds (m u m' u' : Nat) : Prop where
  lower : ∀ k, k * u ≤ m → k * u' ≤ m'
  upper : ∀ k, m ≤ k * u → m' ≤ k * u'

namespace SameBounds

variable {l m n t u v : Nat}

theorem refl (m u : Nat) : SameBounds m u m u := ⟨fun _ h => h, fun _ h => h⟩

theorem trans (h : SameBounds l t m u) (h' : SameBounds m u n v) : SameBounds l t n v :=
  ⟨fun k hk => h'.lower k (h.lower k hk), fun k hk => h'.upper k (h.upper k hk)⟩

/-- A fraction that is expanded keeps its value. -/
theorem expand (c : Nat) : SameBounds m u (c * m) (c * u) where
  lower k hk := by
    rw [Nat.mul_left_comm]
    exact Nat.mul_le_mul_left c hk
  upper k hk := by
    rw [Nat.mul_left_comm]
    exact Nat.mul_le_mul_left c hk

/-- A fraction that is reduced keeps its value. -/
theorem reduce {c : Nat} (hc : 0 < c) : SameBounds (c * m) (c * u) m u where
  lower k hk := by
    rw [Nat.mul_left_comm] at hk
    exact Nat.le_of_mul_le_mul_left hk hc
  upper k hk := by
    rw [Nat.mul_left_comm] at hk
    exact Nat.le_of_mul_le_mul_left hk hc

/-- A mantissa can be divided with loss where its unit is divided without. -/
theorem divide {c : Nat} (hc : 0 < c) : SameBounds m (c * u) (m / c) u where
  lower k hk := by
    rw [Nat.mul_left_comm, Nat.mul_comm] at hk
    exact (Nat.le_div_iff_mul_le hc).2 hk
  upper k hk := by
    rw [Nat.mul_left_comm] at hk
    exact Nat.div_le_of_le_mul hk

theorem dropDigit : SameBounds m (10 * u) (Decimal.dropDigit m) u where
  lower k hk := by
    rw [Nat.mul_left_comm] at hk
    unfold Decimal.dropDigit
    split <;> omega
  upper k hk := by
    rw [Nat.mul_left_comm] at hk
    unfold Decimal.dropDigit
    split <;> omega

theorem lower_int (h : SameBounds m u n v) {k : Int} (hk : k * u ≤ m) : k * v ≤ n := by
  rcases Int.lt_or_le k 0 with hneg | hnonneg
  · exact Int.le_trans (Int.mul_nonpos_of_nonpos_of_nonneg (Int.le_of_lt hneg)
      (Int.natCast_nonneg v)) (Int.natCast_nonneg n)
  · obtain ⟨j, rfl⟩ := Int.eq_ofNat_of_zero_le hnonneg
    exact_mod_cast h.lower j (by exact_mod_cast hk)

theorem upper_int (h : SameBounds m u n v) (hu : 0 < u) {k : Int} (hk : m ≤ k * u) :
    n ≤ k * v := by
  rcases Int.lt_or_le k 0 with hneg | hnonneg
  · have hbelow : k * u < 0 := Int.mul_neg_of_neg_of_pos hneg (Int.natCast_pos.2 hu)
    omega
  · obtain ⟨j, rfl⟩ := Int.eq_ofNat_of_zero_le hnonneg
    exact_mod_cast h.upper j (by exact_mod_cast hk)

/-- Below one there are no whole numbers but zero. -/
theorem zero_of_lt (h : m < u) : SameBounds m u 0 v where
  lower k hk := by
    cases k with
    | zero => rw [Nat.zero_mul]
    | succ k =>
      rw [Nat.succ_mul] at hk
      omega
  upper k _ := Nat.zero_le _

end SameBounds

namespace Decimal

/-! ## Dropped places -/

theorem dropDigit_le (m : Nat) : dropDigit m ≤ m := by
  unfold dropDigit
  split <;> omega

theorem dropPlaces_bounds {excess scale : Nat} (m : Nat) (h : excess ≤ scale) :
    SameBounds m (tenTo scale) (dropPlaces excess (m, scale)).1
        (tenTo (dropPlaces excess (m, scale)).2) ∧
      (dropPlaces excess (m, scale)).1 ≤ m ∧
      (dropPlaces excess (m, scale)).2 ≤ scale - excess := by
  induction excess generalizing m scale with
  | zero => exact ⟨.refl .., Nat.le_refl m, Nat.le_refl scale⟩
  | succ excess ih =>
    obtain ⟨scale, rfl⟩ : ∃ n, scale = n + 1 := ⟨scale - 1, by omega⟩
    rw [dropPlaces]
    split
    · rename_i hsmall
      refine ⟨.zero_of_lt ?_, Nat.zero_le _, Nat.zero_le _⟩
      have hten := tenTo_pos scale
      rw [tenTo_succ]
      omega
    · obtain ⟨hbounds, hle, hscale⟩ := ih (dropDigit m) (Nat.le_of_succ_le_succ h)
      refine ⟨SameBounds.trans ?_ hbounds, Nat.le_trans hle (dropDigit_le m), ?_⟩
      · rw [tenTo_succ]
        exact .dropDigit
      · show (dropPlaces excess (dropDigit m, scale)).2 ≤ scale + 1 - (excess + 1)
        omega

theorem dropExcess_bounds (m scale : Nat) :
    SameBounds m (tenTo scale) (dropExcess m scale).1 (tenTo (dropExcess m scale).2) ∧
      (dropExcess m scale).1 ≤ m ∧ (dropExcess m scale).2 ≤ scale := by
  induction scale generalizing m with
  | zero => exact ⟨.refl .., Nat.le_refl m, Nat.le_refl 0⟩
  | succ scale ih =>
    rw [dropExcess]
    split
    · obtain ⟨hbounds, hle, hscale⟩ := ih (dropDigit m)
      refine ⟨SameBounds.trans ?_ hbounds, Nat.le_trans hle (dropDigit_le m),
        Nat.le_succ_of_le hscale⟩
      rw [tenTo_succ]
      exact .dropDigit
    · exact ⟨.refl .., Nat.le_refl m, Nat.le_refl _⟩

theorem stripZeros_bounds (m scale : Nat) :
    SameBounds m (tenTo scale) (stripZeros m scale).1 (tenTo (stripZeros m scale).2) := by
  induction scale generalizing m with
  | zero => exact .refl ..
  | succ scale ih =>
    rw [stripZeros]
    split
    · refine SameBounds.trans ?_ (ih (m / 10))
      rw [tenTo_succ]
      exact .divide (by decide)
    · exact .refl ..

/-- The decimal of a mantissa in range without a power of ten in front of the point. -/
theorem settle?_bounds (negative : Bool) {m p : Nat} (hm : m < mantissaLimit) :
    ∃ d, settle? negative ⟨m, -p⟩ = some d ∧ d.negative = negative ∧
      SameBounds m (tenTo p) d.mantissa (tenTo d.scale) := by
  unfold settle?
  cases p with
  | zero =>
    have hmul : multiplyIn m 0 = some m := by
      have hone : m * tenTo 0 = m := Nat.mul_one m
      simp only [multiplyIn, hone, if_pos hm]
    refine ⟨⟨negative, m, 0, hm, by decide⟩, ?_, rfl, .refl ..⟩
    show (multiplyIn m 0).bind (fun m => of? negative m 0) = _
    rw [hmul]
    exact dif_pos ⟨hm, by decide⟩
  | succ p =>
    have hbehind : ¬ 0 ≤ -((p + 1 : Nat) : Int) := by omega
    have hplaces : (-(-((p + 1 : Nat) : Int))).toNat = p + 1 := by omega
    simp only [if_neg hbehind, hplaces]
    obtain ⟨hdropped, hle, hscale⟩ := dropPlaces_bounds m (Nat.sub_le (p + 1) scaleLimit)
    generalize dropPlaces (p + 1 - scaleLimit) (m, p + 1) = a at hdropped hle hscale ⊢
    obtain ⟨hkept, hle', hscale'⟩ := dropExcess_bounds a.1 a.2
    generalize dropExcess a.1 a.2 = b at hkept hle' hscale' ⊢
    have hstripped := stripZeros_bounds b.1 b.2
    obtain ⟨hle'', hscale''⟩ := stripZeros_le b.1 b.2
    generalize stripZeros b.1 b.2 = c at hstripped hle'' hscale'' ⊢
    have hrange : c.1 < mantissaLimit ∧ c.2 ≤ scaleLimit := by
      constructor <;> omega
    exact ⟨⟨negative, c.1, c.2, hrange.1, hrange.2⟩, dif_pos hrange, rfl,
      hdropped.trans (hkept.trans hstripped)⟩

/-! ## Traded powers of two -/

/-- The powers of five that the halvings of a unit are traded for. -/
def fiveTo (n : Nat) : Nat := Nat.pow 5 n

theorem fiveTo_succ (n : Nat) : fiveTo (n + 1) = 5 * fiveTo n := Nat.mul_comm ..

theorem twoTo_mul_fiveTo (n : Nat) : twoTo n * fiveTo n = tenTo n := (Nat.mul_pow 2 5 n).symm

/-- With `count` halvings to come, the unit has as many fives less than twos. -/
theorem tradeHalves_bounds {count p m : Nat} (h : count ≤ p) (hm : m < mantissaLimit) :
    ∃ m' p' : Nat, tradeHalves count ⟨m, -p⟩ = ⟨m', -p'⟩ ∧ m' < mantissaLimit ∧
      SameBounds m (twoTo p * fiveTo (p - count)) m' (tenTo p') := by
  induction count generalizing m p with
  | zero =>
    refine ⟨m, p, rfl, hm, ?_⟩
    rw [Nat.sub_zero, twoTo_mul_fiveTo]
    exact .refl ..
  | succ count ih =>
    have hhalve : ∃ m' p' : Nat, tradeHalves count ⟨m / 2, -(p : Int) + 1⟩ = ⟨m', -p'⟩ ∧
        m' < mantissaLimit ∧
        SameBounds m (twoTo p * fiveTo (p - (count + 1))) m' (tenTo p') := by
      obtain ⟨q, rfl⟩ : ∃ q, p = q + 1 := ⟨p - 1, by omega⟩
      obtain ⟨m', p', heq, hlt, hbounds⟩ :=
        ih (p := q) (m := m / 2) (by omega) (Nat.lt_of_le_of_lt (Nat.div_le_self m 2) hm)
      have hexponent : -((q + 1 : Nat) : Int) + 1 = -(q : Int) := by omega
      rw [hexponent, Nat.add_sub_add_right, twoTo_succ, Nat.mul_assoc]
      exact ⟨m', p', heq, hlt, SameBounds.trans (.divide (by decide)) hbounds⟩
    rw [tradeHalves]
    split
    · exact hhalve
    · split
      · rename_i hfive
        obtain ⟨m', p', heq, hlt, hbounds⟩ := ih (p := p) (m := 5 * m) (by omega) hfive
        refine ⟨m', p', heq, hlt, SameBounds.trans ?_ hbounds⟩
        have hplaces : p - count = p - (count + 1) + 1 := by omega
        rw [hplaces, fiveTo_succ, Nat.mul_left_comm]
        exact .expand 5
      · exact hhalve

/-- Doublings that stay in range are traded without loss. -/
theorem tradeDoubles_eq {count m : Nat} {e : Int} (h : m * twoTo count < mantissaLimit) :
    tradeDoubles count ⟨m, e⟩ = ⟨m * twoTo count, e - count⟩ := by
  induction count generalizing m e with
  | zero => simp [tradeDoubles, twoTo]
  | succ count ih =>
    have hcount := twoTo_pos count
    have hnext : 2 * m * twoTo count = m * twoTo (count + 1) := by
      rw [twoTo_succ]
      ring
    have hfree : m < twoTo 95 := by
      have hlimit : mantissaLimit = 2 * twoTo 95 := by decide
      have hle : 2 * m ≤ 2 * m * twoTo count := Nat.le_mul_of_pos_right _ hcount
      omega
    have hexponent : e - 1 - count = e - (count + 1 : Nat) := by omega
    rw [tradeDoubles, if_pos hfree, ih (hnext ▸ h), hnext, hexponent]

/-! ## Finite numbers -/

/-- A count that fits is a mantissa times a power of two. -/
theorem mantissaExponent_of_fits {x : Finite} (h : Fits precision x.units) :
    ∃ m shift : Nat, x.mantissaExponent = (m, (shift : Int) - unitExponent) ∧
      x.units = twoTo shift * m ∧ m < mantissaLimit := by
  have hdigits := lt_twoTo_binarySize x.units
  unfold Finite.mantissaExponent
  unfold Fits at h
  generalize binarySize x.units = size at h hdigits ⊢
  obtain ⟨m, hm⟩ := h
  refine ⟨m, size - precision, ?_, hm, ?_⟩
  · show (x.units / twoTo (size - precision), _) = _
    rw [hm, Nat.mul_div_cancel_left _ (twoTo_pos _)]
  · have hsize := twoTo_le_twoTo (m := size) (n := size - precision + precision) (by omega)
    have hlimit : twoTo precision < mantissaLimit := by decide
    rw [twoTo_add] at hsize
    rw [hm] at hdigits
    exact Nat.lt_trans (Nat.lt_of_mul_lt_mul_left (Nat.lt_of_lt_of_le hdigits hsize)) hlimit

/-- A mantissa in units less than one is traded for one in places behind the point. -/
theorem settle?_tradeHalves (negative : Bool) {m shift p : Nat} (hm : m < mantissaLimit)
    (hp : unitExponent = shift + p) :
    ∃ d, settle? negative (tradeHalves p ⟨m, -p⟩) = some d ∧ d.negative = negative ∧
      SameBounds (twoTo shift * m) unitsInOne d.mantissa (tenTo d.scale) := by
  obtain ⟨m', p', heq, hm', hbounds⟩ := tradeHalves_bounds (Nat.le_refl p) hm
  obtain ⟨d, hd, hsign, hsettled⟩ := settle?_bounds negative (p := p') hm'
  have hone : fiveTo (p - p) = 1 := by
    rw [Nat.sub_self]
    rfl
  rw [hone, Nat.mul_one] at hbounds
  have hunits : unitsInOne = twoTo shift * twoTo p := by rw [unitsInOne, hp, twoTo_add]
  rw [heq, hunits]
  exact ⟨d, hd, hsign, (SameBounds.reduce (twoTo_pos shift)).trans (hbounds.trans hsettled)⟩

/-- A whole number in range is kept. -/
theorem settle?_tradeDoubles (negative : Bool) {m count : Nat}
    (h : m * twoTo count < mantissaLimit) :
    ∃ d, settle? negative (tradeDoubles count ⟨m, count⟩) = some d ∧ d.negative = negative ∧
      SameBounds (unitsInOne * (m * twoTo count)) unitsInOne d.mantissa (tenTo d.scale) := by
  obtain ⟨d, hd, hsign, hsettled⟩ := settle?_bounds negative (p := 0) h
  have hreduce : SameBounds (unitsInOne * (m * twoTo count)) (unitsInOne * 1) (m * twoTo count) 1 :=
    .reduce (twoTo_pos unitExponent)
  rw [Nat.mul_one] at hreduce
  rw [tradeDoubles_eq h, Int.sub_self]
  exact ⟨d, hd, hsign, hreduce.trans hsettled⟩

/-- A binary number in the range of mantissas has a decimal, between the same whole numbers. -/
theorem ofFinite?_bounds {x : Finite} (hfits : Fits precision x.units)
    (hrange : x.units < mantissaLimit * unitsInOne) :
    ∃ d, ofFinite? x = some d ∧ d.negative = x.negative ∧
      SameBounds x.units unitsInOne d.mantissa (tenTo d.scale) := by
  unfold ofFinite?
  by_cases hzero : x.units = 0
  · refine ⟨⟨x.negative, 0, 0, by decide, by decide⟩, if_pos hzero, rfl, ?_⟩
    rw [hzero]
    exact .zero_of_lt (twoTo_pos unitExponent)
  · obtain ⟨m, shift, hscaled, hunits, hm⟩ := mantissaExponent_of_fits hfits
    rw [if_neg hzero]
    simp only [hscaled]
    by_cases hshift : shift < unitExponent
    · obtain ⟨p, hp⟩ : ∃ p, unitExponent = shift + p := ⟨unitExponent - shift, by omega⟩
      have hexponent : (shift : Int) - unitExponent = -(p : Int) := by omega
      have hcount : (-(-(p : Int))).toNat = p := by omega
      rw [hexponent, if_pos (by omega), hcount, hunits]
      exact settle?_tradeHalves x.negative hm hp
    · obtain ⟨count, rfl⟩ : ∃ count, shift = unitExponent + count :=
        ⟨shift - unitExponent, by omega⟩
      have hexponent : ((unitExponent + count : Nat) : Int) - unitExponent = count := by omega
      have hwhole : x.units = unitsInOne * (m * twoTo count) := by
        rw [hunits, twoTo_add, unitsInOne]
        ring
      have hin : m * twoTo count < mantissaLimit := by
        rw [hwhole, Nat.mul_comm] at hrange
        exact Nat.lt_of_mul_lt_mul_right hrange
      rw [hexponent, if_neg (by omega), Int.toNat_natCast, hwhole]
      exact settle?_tradeDoubles x.negative hin

/-- A decimal with the sign of a binary number lies between the same integers. -/
theorem signed_between {x : Finite} {d : Decimal} (hsign : d.negative = x.negative)
    (h : SameBounds x.units unitsInOne d.mantissa (tenTo d.scale)) (k : Int) :
    (k * unitsInOne ≤ x.signed → k * tenTo d.scale ≤ d.signed) ∧
      (x.signed ≤ k * unitsInOne → d.signed ≤ k * tenTo d.scale) := by
  have hunits : 0 < unitsInOne := twoTo_pos unitExponent
  unfold signed Finite.signed
  rw [hsign]
  cases x.negative with
  | false => exact ⟨h.lower_int, h.upper_int hunits⟩
  | true =>
    simp only [if_true]
    -- Negation turns the integers below into those above.
    have hlower := h.lower_int (k := -k)
    have hupper := h.upper_int hunits (k := -k)
    rw [Int.neg_mul, Int.neg_mul] at hlower hupper
    omega

end Decimal

end DataGrid.Number
