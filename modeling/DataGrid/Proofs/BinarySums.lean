import DataGrid.Proofs.ExactSums
import DataGrid.Proofs.NumberReadings
import DataGrid.Proofs.RoundedQuotients
import Mathlib.Algebra.Order.Ring.Int
import Mathlib.Data.List.Induction
import Mathlib.Tactic.Ring

/-!
# Sums and means of integers as binary numbers

A binary number holds an integer if the number that the integer converts to has its value. A running
total whose terms and exact values are all held is exact, and its quotient by a count that is held
lies between the same held integers as the exact mean. Whatever is rounded on the way, a running
total of 64-bit words is no farther from zero than 2^53 of them can take it, and a mean no farther
than one.
-/

namespace DataGrid.Number

namespace Finite

variable {num den : Nat} {k : Int}

theorem natAbs_signed (x : Finite) : x.signed.natAbs = x.units := by
  unfold signed
  split <;> omega

theorem signed_mul (x : Finite) (c : Nat) :
    (⟨x.negative, x.units * c⟩ : Finite).signed = x.signed * c := by
  unfold signed
  split <;> simp

/-- An integral count that fits and lies below a signed quotient lies below the rounded one. -/
theorem le_signed_nearestCount (negative : Bool) (hden : 0 < den)
    (hfits : Fits precision k.natAbs) (h : k * den ≤ (⟨negative, num⟩ : Finite).signed) :
    k ≤ (⟨negative, nearestCount precision num den⟩ : Finite).signed := by
  have hden' : (0 : Int) < den := Int.natCast_pos.2 hden
  unfold signed at h ⊢
  cases negative with
  | false =>
    rcases Int.lt_or_le k 0 with hneg | hnonneg
    · simp only [Bool.false_eq_true, if_false]
      omega
    · obtain ⟨j, rfl⟩ := Int.eq_ofNat_of_zero_le hnonneg
      simp only [Bool.false_eq_true, if_false] at h ⊢
      have hle : j * den ≤ num := by exact_mod_cast h
      exact Int.ofNat_le.2 (le_nearestCount (by decide) hden hfits hle)
  | true =>
    simp only [if_true] at h ⊢
    have hnonpos : k ≤ 0 := by
      refine Int.not_lt.1 fun hpos => ?_
      have hfar : 0 < k * den := Int.mul_pos hpos hden'
      omega
    obtain ⟨j, hj⟩ := Int.eq_ofNat_of_zero_le (Int.neg_nonneg_of_nonpos hnonpos)
    have hk : k = -(j : Int) := by omega
    subst hk
    rw [Int.natAbs_neg] at hfits
    rw [Int.neg_mul] at h
    have hle : num ≤ j * den := by
      have hswap := Int.le_of_neg_le_neg h
      exact_mod_cast hswap
    have hcount := nearestCount_le hden hfits hle
    simp only [Int.natAbs_natCast] at hcount
    omega

theorem signed_nearestCount_le (negative : Bool) (hden : 0 < den)
    (hfits : Fits precision k.natAbs) (h : (⟨negative, num⟩ : Finite).signed ≤ k * den) :
    (⟨negative, nearestCount precision num den⟩ : Finite).signed ≤ k := by
  have hflip : ∀ n, (⟨!negative, n⟩ : Finite).signed = -(⟨negative, n⟩ : Finite).signed := by
    intro n
    unfold signed
    cases negative <;> simp
  have hbelow := le_signed_nearestCount (!negative) (k := -k) hden (by rwa [Int.natAbs_neg])
    (by rw [hflip, Int.neg_mul]; exact Int.neg_le_neg h)
  rw [hflip] at hbelow
  exact Int.le_of_neg_le_neg hbelow

end Finite

namespace Binary64

theorem ofUnits_of_le {num den k : Nat} (negative : Bool) (hden : 0 < den)
    (hfits : Fits precision k) (hk : k < unitsLimit) (h : num ≤ k * den) :
    ofUnits negative num den = .finite ⟨negative, nearestCount precision num den⟩ ∧
      nearestCount precision num den ≤ k := by
  have hle := nearestCount_le hden hfits h
  unfold ofUnits
  rw [if_pos (Nat.lt_of_le_of_lt hle hk)]
  exact ⟨rfl, hle⟩

theorem ofUnits_inv {num den : Nat} {negative : Bool} {x : Finite}
    (h : ofUnits negative num den = .finite x) :
    x = ⟨negative, nearestCount precision num den⟩ := by
  unfold ofUnits at h
  simp only at h
  split at h <;> cases h
  rfl

theorem ofInt_eq (n : Int) : ofInt n = ofUnits (n < 0) (n.natAbs * unitsInOne) 1 := by
  unfold ofInt ofRatio
  rfl

/-! ## Exact sums -/

/-- Whether the binary number of an integer has its value. -/
def Holds (n : Int) : Prop := ∃ x, ofInt n = .finite x ∧ x.signed = n * unitsInOne

theorem holds_of_natAbs_le {n : Int} (h : n.natAbs ≤ twoTo precision) : Holds n :=
  ⟨Finite.ofInt n, ofInt_eq_finite h, Finite.signed_ofInt h⟩

theorem Holds.fits {n : Int} (h : Holds n) : Fits precision (n * unitsInOne).natAbs := by
  obtain ⟨x, hx, hvalue⟩ := h
  rw [ofInt_eq] at hx
  rw [← hvalue, x.natAbs_signed, ofUnits_inv hx]
  exact fits_nearestCount (by decide) (by decide)

/-- A sum that is held is exact. -/
theorem add_of_holds {x y : Finite} {m n : Int} (hx : x.signed = m * unitsInOne)
    (hy : y.signed = n * unitsInOne) (h : Holds (m + n)) :
    ∃ z, add (.finite x) (.finite y) = .finite z ∧ z.signed = (m + n) * unitsInOne := by
  have hunits : (0 : Int) < unitsInOne := Int.natCast_pos.2 unitsInOne_pos
  have hsum : x.signed + y.signed = (m + n) * unitsInOne := by rw [hx, hy, Int.add_mul]
  unfold add
  simp only [hsum]
  by_cases hzero : (m + n) * (unitsInOne : Int) = 0
  · refine ⟨⟨x.negative && y.negative, 0⟩, if_pos hzero, ?_⟩
    rw [hzero]
    unfold Finite.signed
    split <;> rfl
  · obtain ⟨z, hz, hvalue⟩ := h
    refine ⟨z, ?_, hvalue⟩
    have hsign : decide ((m + n) * (unitsInOne : Int) < 0) = decide (m + n < 0) := by
      rw [decide_eq_decide]
      constructor
      · intro hneg
        refine Int.not_le.1 fun hnonneg => ?_
        exact Int.not_le.2 hneg (Int.mul_nonneg hnonneg (Int.le_of_lt hunits))
      · exact fun hneg => Int.mul_neg_of_neg_of_pos hneg hunits
    rw [if_neg hzero, hsign, Int.natAbs_mul, Int.natAbs_natCast, ← ofInt_eq]
    exact hz

/-- The running total of words as binary numbers. -/
def total (ns : List Int64) : Binary64 := ns.foldl (fun x n => x.add (ofInt n.toInt)) zero

theorem total_concat (ns : List Int64) (n : Int64) :
    total (ns ++ [n]) = (total ns).add (ofInt n.toInt) := by
  rw [total, List.foldl_append]
  rfl

/-- A running total is exact as long as each word and each exact total is held. -/
theorem total_exact {ns : List Int64} (hterms : ∀ n ∈ ns, Holds n.toInt)
    (htotals : ∀ p, p <+: ns → Holds (integerSum p)) :
    ∃ x, total ns = .finite x ∧ x.signed = integerSum ns * unitsInOne := by
  induction ns using List.reverseRecOn with
  | nil =>
    refine ⟨⟨false, 0⟩, rfl, ?_⟩
    have hnone : integerSum [] = 0 := rfl
    rw [hnone, Int.zero_mul]
    rfl
  | append_singleton ns n ih =>
    obtain ⟨x, hx, hvalue⟩ := ih (fun m hm => hterms m (List.mem_append_left _ hm))
      fun p hp => htotals p (hp.trans (List.prefix_append ..))
    obtain ⟨y, hy, hterm⟩ := hterms n (by simp)
    have hlast := htotals (ns ++ [n]) List.prefix_rfl
    rw [integerSum_concat] at hlast ⊢
    rw [total_concat, hx, hy]
    exact add_of_holds hvalue hterm hlast

/-- The quotient of an exact sum by a count that is held lies between the same held integers as
the exact mean. -/
theorem div_exact {x z : Finite} {sum k : Int} {count : Nat} (hcount : 0 < count)
    (hx : x.signed = sum * unitsInOne) (hheld : Holds count)
    (hz : div (.finite x) (ofInt count) = .finite z) (hk : Holds k) :
    (k * count ≤ sum → k * unitsInOne ≤ z.signed) ∧
      (sum ≤ k * count → z.signed ≤ k * unitsInOne) := by
  have hunits : (0 : Int) ≤ unitsInOne := Int.natCast_nonneg _
  have hden : 0 < count * unitsInOne := Nat.mul_pos hcount unitsInOne_pos
  obtain ⟨y, hy, hvalue⟩ := hheld
  have hcounted : y.units = count * unitsInOne := by
    rw [← y.natAbs_signed, hvalue, Int.natAbs_mul, Int.natAbs_natCast, Int.natAbs_natCast]
  have hsign : y.negative = false := by
    rw [ofInt_eq] at hy
    rw [ofUnits_inv hy]
    show decide ((count : Int) < 0) = false
    exact decide_eq_false (by omega)
  have hquotient : z = ⟨x.negative, nearestCount precision (x.units * unitsInOne)
      (count * unitsInOne)⟩ := by
    rw [hy] at hz
    unfold div at hz
    simp only [hcounted, hsign, if_neg (Nat.ne_of_gt hden), Bool.bne_false] at hz
    exact ofUnits_inv hz
  have hexact : (⟨x.negative, x.units * unitsInOne⟩ : Finite).signed =
      sum * unitsInOne * unitsInOne := by rw [x.signed_mul, hx]
  have hbound : k * unitsInOne * (count * unitsInOne : Nat) =
      k * count * unitsInOne * unitsInOne := by
    rw [Int.natCast_mul]
    ring
  rw [hquotient]
  constructor
  · intro h
    refine Finite.le_signed_nearestCount x.negative hden hk.fits ?_
    rw [hexact, hbound]
    exact Int.mul_le_mul_of_nonneg_right (Int.mul_le_mul_of_nonneg_right h hunits) hunits
  · intro h
    refine Finite.signed_nearestCount_le x.negative hden hk.fits ?_
    rw [hexact, hbound]
    exact Int.mul_le_mul_of_nonneg_right (Int.mul_le_mul_of_nonneg_right h hunits) hunits

/-! ## Rounded sums -/

/-- The units of 2^63, which no word is farther from zero than. -/
def wordUnits : Nat := twoTo (63 + unitExponent)

/-- Whether a number is finite and no farther from zero than `count` words can take it, or 2^53
words where there are more. -/
def Within (count : Nat) (x : Binary64) : Prop :=
  ∃ y, x = .finite y ∧ y.units ≤ min count (twoTo precision) * wordUnits

theorem wordUnits_eq : wordUnits = twoTo 63 * unitsInOne := by
  unfold wordUnits unitsInOne
  exact twoTo_add 63 unitExponent

theorem fits_mul_wordUnits {c : Nat} (hc : c ≤ twoTo precision) :
    Fits precision (c * wordUnits) := by
  unfold wordUnits
  exact fits_mul_twoTo (by decide) hc

theorem fits_mul_unitsInOne {c : Nat} (hc : c ≤ twoTo precision) :
    Fits precision (c * unitsInOne) := by
  unfold unitsInOne
  exact fits_mul_twoTo (by decide) hc

theorem mul_wordUnits_lt {c : Nat} (hc : c ≤ twoTo precision) : c * wordUnits < unitsLimit := by
  have hlimit := twoTo_lt (m := precision + (63 + unitExponent)) (n := 2098) (by decide)
  rw [twoTo_add] at hlimit
  unfold wordUnits unitsLimit
  exact Nat.lt_of_le_of_lt (Nat.mul_le_mul_right _ hc) hlimit

theorem within_ofInt (n : Int64) : Within 1 (ofInt n.toInt) := by
  have hsize : n.toInt.natAbs ≤ twoTo 63 := by
    have hlower := n.le_toInt
    have hupper := n.toInt_lt
    have hlimit : twoTo 63 = 9223372036854775808 := by decide
    omega
  have hone : 1 ≤ twoTo precision := twoTo_pos precision
  have hcap : min 1 (twoTo precision) = 1 := Nat.min_eq_left hone
  have hle : n.toInt.natAbs * unitsInOne ≤ 1 * wordUnits * 1 := by
    rw [Nat.one_mul, Nat.mul_one, wordUnits_eq]
    exact Nat.mul_le_mul_right unitsInOne hsize
  obtain ⟨hfinite, hcount⟩ := ofUnits_of_le (n.toInt < 0) Nat.one_pos (fits_mul_wordUnits hone)
    (mul_wordUnits_lt hone) hle
  refine ⟨_, by rw [ofInt_eq, hfinite], ?_⟩
  rw [hcap]
  exact hcount

/-- The step beyond 2^53 words is rounded away where it would lead farther. -/
theorem nearestCount_sum_le {units count : Nat}
    (h : units ≤ (min count (twoTo precision) + 1) * wordUnits) :
    nearestCount precision units 1 ≤ min (count + 1) (twoTo precision) * wordUnits := by
  by_cases hcount : count < twoTo precision
  · have hcap : min count (twoTo precision) = count := Nat.min_eq_left (by omega)
    have hnext : min (count + 1) (twoTo precision) = count + 1 := Nat.min_eq_left (by omega)
    rw [hcap] at h
    rw [hnext]
    exact nearestCount_le Nat.one_pos (fits_mul_wordUnits hcount) (by rwa [Nat.mul_one])
  · have hcap : min count (twoTo precision) = twoTo precision := Nat.min_eq_right (by omega)
    have hnext : min (count + 1) (twoTo precision) = twoTo precision :=
      Nat.min_eq_right (by omega)
    rw [hcap, Nat.add_mul, Nat.one_mul, wordUnits] at h
    rw [hnext, wordUnits, ← twoTo_add]
    refine nearestCount_le_twoTo (by decide) Nat.one_pos (Nat.le_add_right ..) ?_
    rw [Nat.mul_one, Nat.add_sub_cancel_left, twoTo_add]
    exact h

theorem Within.add {count : Nat} {x y : Binary64} (hx : Within count x) (hy : Within 1 y) :
    Within (count + 1) (x.add y) := by
  obtain ⟨x, rfl, hx⟩ := hx
  obtain ⟨y, rfl, hy⟩ := hy
  have hone : min 1 (twoTo precision) = 1 := Nat.min_eq_left (twoTo_pos precision)
  have hsum : (x.signed + y.signed).natAbs ≤
      (min count (twoTo precision) + 1) * wordUnits := by
    have htriangle := Int.natAbs_add_le x.signed y.signed
    rw [x.natAbs_signed, y.natAbs_signed] at htriangle
    rw [hone, Nat.one_mul] at hy
    rw [Nat.add_mul, Nat.one_mul]
    omega
  have hcount := nearestCount_sum_le hsum
  unfold Binary64.add
  simp only
  by_cases hzero : x.signed + y.signed = 0
  · exact ⟨_, if_pos hzero, Nat.zero_le _⟩
  · refine ⟨⟨x.signed + y.signed < 0, nearestCount precision (x.signed + y.signed).natAbs 1⟩,
      ?_, hcount⟩
    unfold ofUnits
    rw [if_neg hzero, if_pos (Nat.lt_of_le_of_lt hcount (mul_wordUnits_lt (Nat.min_le_right ..)))]

theorem total_within (ns : List Int64) : Within ns.length (total ns) := by
  induction ns using List.reverseRecOn with
  | nil => exact ⟨⟨false, 0⟩, rfl, Nat.zero_le _⟩
  | append_singleton ns n ih =>
    rw [total_concat, List.length_append, List.length_singleton]
    exact ih.add (within_ofInt n)

/-- The binary number of a count is infinite or no less than the words that count. -/
theorem ofInt_count (count : Nat) :
    ofInt count = .infinite false ∨ ∃ y, ofInt count = .finite ⟨false, y⟩ ∧
      min count (twoTo precision) * unitsInOne ≤ y := by
  have hsign : decide ((count : Int) < 0) = false := decide_eq_false (by omega)
  rw [ofInt_eq, hsign, Int.natAbs_natCast]
  unfold ofUnits
  simp only
  by_cases hlimit : nearestCount precision (count * unitsInOne) 1 < unitsLimit
  · refine .inr ⟨_, if_pos hlimit, ?_⟩
    refine le_nearestCount (by decide) Nat.one_pos
      (fits_mul_unitsInOne (Nat.min_le_right ..)) ?_
    rw [Nat.mul_one]
    exact Nat.mul_le_mul_right unitsInOne (Nat.min_le_left ..)
  · exact .inl (if_neg hlimit)

/-- A mean of words is finite and no farther from zero than one word. -/
theorem Within.div {count : Nat} {x : Binary64} (h : Within count x) (hcount : 0 < count) :
    ∃ z, x.div (ofInt count) = .finite z ∧ Fits precision z.units ∧ z.units ≤ wordUnits := by
  obtain ⟨x, rfl, hx⟩ := h
  rcases ofInt_count count with hinfinite | ⟨y, hy, hle⟩
  · rw [hinfinite]
    exact ⟨_, rfl, Nat.dvd_zero _, Nat.zero_le _⟩
  · have hcap : 0 < min count (twoTo precision) * unitsInOne :=
      Nat.mul_pos (Nat.lt_min.2 ⟨hcount, twoTo_pos precision⟩) unitsInOne_pos
    have hpos : 0 < y := Nat.lt_of_lt_of_le hcap hle
    have hquotient : x.units * unitsInOne ≤ 1 * wordUnits * y := by
      calc x.units * unitsInOne
          ≤ min count (twoTo precision) * wordUnits * unitsInOne := Nat.mul_le_mul_right _ hx
        _ = 1 * wordUnits * (min count (twoTo precision) * unitsInOne) := by ring
        _ ≤ 1 * wordUnits * y := Nat.mul_le_mul_left _ hle
    have hone : 1 ≤ twoTo precision := twoTo_pos precision
    obtain ⟨hfinite, hbound⟩ := ofUnits_of_le (x.negative != false) hpos
      (fits_mul_wordUnits hone) (mul_wordUnits_lt hone) hquotient
    rw [Nat.one_mul] at hbound
    refine ⟨⟨x.negative != false, nearestCount precision (x.units * unitsInOne) y⟩, ?_,
      fits_nearestCount (by decide) hpos, hbound⟩
    rw [hy]
    unfold Binary64.div
    simp only [if_neg (Nat.ne_of_gt hpos)]
    exact hfinite

end Binary64

end DataGrid.Number
