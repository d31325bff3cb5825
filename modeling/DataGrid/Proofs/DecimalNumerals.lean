import DataGrid.Number.Decimal.Text
import DataGrid.Proofs.PaddedDigits
import DataGrid.Proofs.ValueOrder
import Mathlib.Tactic.FieldSimp
import Mathlib.Tactic.Linarith
import Mathlib.Tactic.Ring

/-!
# Numerals of decimals

A decimal is written with as many places behind the point as its scale has, and the numeral denotes
the decimal's value. Normalized decimals are the canonical ones, so two decimals of one value have
one normalized text. A decimal rescaled to fewer places is the nearest one with that many, and a
half goes away from zero.
-/

namespace DataGrid.Number

open Text

variable {s t : List Char} {places n : Nat}

namespace Decimal

/-! ## Numerals -/

/-- An unsigned numeral, the number of its places behind the point, and the number that its digits
denote without the point. -/
inductive Unsigned : List Char → Nat → Nat → Prop where
  | whole {s : List Char} (h : DigitRun s) : Unsigned s 0 (runValue s)
  | point {s t : List Char} (hs : DigitRun s) (ht : DigitRun t) :
      Unsigned (s ++ '.' :: t) t.length (runValue (s ++ t))

/-- A numeral with an optional minus sign. -/
inductive Numeral : List Char → Nat → Int → Prop where
  | plain {s : List Char} {places n : Nat} (h : Unsigned s places n) : Numeral s places n
  | minus {s : List Char} {places n : Nat} (h : Unsigned s places n) :
      Numeral ('-' :: s) places (-n)

/-- A sign stands in no unsigned numeral. -/
theorem Unsigned.not_mem {c : Char} (h : Unsigned s places n) (hc : c.isDigit = false)
    (hpoint : c ≠ '.') : c ∉ s := by
  cases h with
  | whole h => exact h.not_mem hc
  | point hs ht =>
    rw [List.mem_append, List.mem_cons, not_or, not_or]
    exact ⟨hs.not_mem hc, hpoint, ht.not_mem hc⟩

theorem Unsigned.unique {places' n' : Nat} (h : Unsigned s places n) (h' : Unsigned s places' n') :
    places = places' ∧ n = n' := by
  have hpoint : Char.isDigit '.' = false := by decide
  cases h with
  | whole hs =>
    generalize hr : s = r at h'
    cases h' with
    | whole => exact ⟨rfl, rfl⟩
    | point ha hb => exact absurd (hr ▸ by simp) (hs.not_mem hpoint)
  | @point a b ha hb =>
    generalize hr : a ++ '.' :: b = r at h'
    cases h' with
    | whole hs => exact absurd (hr ▸ by simp) (hs.not_mem hpoint)
    | @point c d hc hd =>
      obtain ⟨rfl, -, rfl⟩ :=
        (List.append_cons_inj_of_notMem (ha.not_mem hpoint) (hb.not_mem hpoint)).1 hr
      exact ⟨rfl, rfl⟩

/-- A numeral has one reading. -/
theorem Numeral.unique {places' : Nat} {n n' : Int} (h : Numeral s places n)
    (h' : Numeral s places' n') : places = places' ∧ n = n' := by
  have hminus : Char.isDigit '-' = false := by decide
  cases h with
  | plain h =>
    generalize hr : s = r at h'
    cases h' with
    | plain h' =>
      subst hr
      obtain ⟨rfl, rfl⟩ := h.unique h'
      exact ⟨rfl, rfl⟩
    | minus h' => exact absurd (hr ▸ by simp) (h.not_mem hminus (by decide))
  | @minus u p k h =>
    generalize hr : '-' :: u = r at h'
    cases h' with
    | plain h' => exact absurd (hr ▸ by simp) (h'.not_mem hminus (by decide))
    | minus h' =>
      obtain rfl := (List.cons.inj hr).2
      obtain ⟨rfl, rfl⟩ := h.unique h'
      exact ⟨rfl, rfl⟩

/-- Zeros in front of a numeral change nothing. -/
theorem Unsigned.zeros (k : Nat) (h : Unsigned s places n) :
    Unsigned (List.replicate k '0' ++ s) places n := by
  have hrun : ∀ {s}, DigitRun s → DigitRun (List.replicate k '0' ++ s) := by
    intro s hs
    refine ⟨fun hnil => hs.nonempty (List.append_eq_nil_iff.1 hnil).2, fun c hc => ?_⟩
    rcases List.mem_append.1 hc with hc | hc
    · rw [List.eq_of_mem_replicate hc]
      decide
    · exact hs.digits c hc
  cases h with
  | whole h =>
    rw [← runValue_zeros k s]
    exact .whole (hrun h)
  | @point a b ha hb =>
    rw [← runValue_zeros k (a ++ b), ← List.append_assoc, ← List.append_assoc]
    exact .point (hrun ha) hb

/-! ## The text of a decimal -/

theorem unsigned_digits {digits : List Char} (h : DigitRun digits) {scale : Nat}
    (hlength : scale < digits.length) :
    Unsigned (if scale = 0 then digits
      else digits.take (digits.length - scale) ++ '.' :: digits.drop (digits.length - scale))
      scale (runValue digits) := by
  by_cases hscale : scale = 0
  · rw [if_pos hscale, hscale]
    exact .whole h
  · rw [if_neg hscale]
    have htake : (digits.take (digits.length - scale)).length = digits.length - scale := by
      rw [List.length_take]
      omega
    have hdrop : (digits.drop (digits.length - scale)).length = scale := by
      rw [List.length_drop]
      omega
    have hpoint := Unsigned.point (s := digits.take (digits.length - scale))
      (t := digits.drop (digits.length - scale))
      ⟨List.ne_nil_of_length_pos (by omega), fun c hc => h.digits c (List.mem_of_mem_take hc)⟩
      ⟨List.ne_nil_of_length_pos (by omega), fun c hc => h.digits c (List.mem_of_mem_drop hc)⟩
    rwa [hdrop, List.take_append_drop] at hpoint

/-- The text of a decimal has the places of its scale and denotes its value. -/
theorem numeral_chars (x : Decimal) : Numeral x.chars x.scale x.signed := by
  have hlength : x.scale < (paddedDigits (x.scale + 1) x.mantissa).length := by
    unfold paddedDigits
    rw [length_padStart]
    omega
  have hbody := unsigned_digits (digitRun_paddedDigits (x.scale + 1) x.mantissa) hlength
  rw [runValue_paddedDigits] at hbody
  unfold chars signed
  cases x.negative with
  | false => exact .plain hbody
  | true => exact .minus hbody

/-! ## Normalized decimals -/

theorem signed_eq_zero_iff (x : Decimal) : x.signed = 0 ↔ x.mantissa = 0 := by
  unfold signed
  split <;> omega

theorem toRat_eq_iff (x y : Decimal) :
    x.toRat = y.toRat ↔ x.signed * tenTo y.scale = y.signed * tenTo x.scale := by
  have hx : (tenTo x.scale : ℚ) ≠ 0 := Nat.cast_ne_zero.2 (tenTo_pos _).ne'
  have hy : (tenTo y.scale : ℚ) ≠ 0 := Nat.cast_ne_zero.2 (tenTo_pos _).ne'
  unfold toRat
  rw [div_eq_div_iff hx hy]
  exact_mod_cast Iff.rfl

/-- Trailing zeros do not change the value, and none are left. -/
theorem stripZeros_spec (mantissa scale : Nat) :
    (stripZeros mantissa scale).1 * tenTo scale = mantissa * tenTo (stripZeros mantissa scale).2 ∧
      ((stripZeros mantissa scale).2 ≠ 0 → (stripZeros mantissa scale).1 % 10 ≠ 0) := by
  induction scale generalizing mantissa with
  | zero => exact ⟨rfl, fun h => absurd rfl h⟩
  | succ scale ih =>
    rw [stripZeros]
    split
    · rename_i hzero
      obtain ⟨hvalue, hlast⟩ := ih (mantissa / 10)
      refine ⟨?_, hlast⟩
      obtain ⟨k, rfl⟩ := Nat.dvd_of_mod_eq_zero hzero
      rw [Nat.mul_div_cancel_left k (by decide)] at hvalue ⊢
      rw [tenTo_succ]
      linarith
    · rename_i hlast
      exact ⟨rfl, fun _ => hlast⟩

/-- Decimals in normal form: no zero stands last behind the point, and a zero has no sign. -/
structure Normal (x : Decimal) : Prop where
  last : x.scale ≠ 0 → x.mantissa % 10 ≠ 0
  unsigned : x.mantissa = 0 → x.negative = false

theorem normal_normalize (x : Decimal) : x.normalize.Normal := by
  unfold normalize
  split
  · exact ⟨fun h => absurd rfl h, fun _ => rfl⟩
  · rename_i hne
    obtain ⟨hvalue, hlast⟩ := stripZeros_spec x.mantissa x.scale
    refine ⟨hlast, fun hzero => absurd ?_ hne⟩
    rw [show (stripZeros x.mantissa x.scale).1 = 0 from hzero, Nat.zero_mul] at hvalue
    exact (Nat.mul_eq_zero.1 hvalue.symm).resolve_right (tenTo_pos _).ne'

theorem toRat_normalize (x : Decimal) : x.normalize.toRat = x.toRat := by
  rw [toRat_eq_iff]
  unfold normalize
  split
  · rename_i hzero
    rw [(signed_eq_zero_iff x).2 hzero, Int.zero_mul]
    exact Int.zero_mul _
  · have hvalue : ((stripZeros x.mantissa x.scale).1 : Int) * tenTo x.scale =
        x.mantissa * tenTo (stripZeros x.mantissa x.scale).2 := by
      exact_mod_cast (stripZeros_spec x.mantissa x.scale).1
    unfold signed
    cases x.negative with
    | false => exact hvalue
    | true =>
      simp only [if_true]
      rw [Int.neg_mul, Int.neg_mul, hvalue]

/-- A number with a last digit that is not zero has no equal with fewer places. -/
theorem not_lt_of_last {m n j k : Nat} (hlast : k ≠ 0 → n % 10 ≠ 0)
    (h : m * tenTo k = n * tenTo j) : ¬ j < k := by
  intro hlt
  obtain ⟨d, rfl⟩ : ∃ d, k = j + (d + 1) := ⟨k - j - 1, by omega⟩
  have hn : n = 10 * (m * tenTo d) := by
    apply Nat.eq_of_mul_eq_mul_right (tenTo_pos j)
    rw [← h, tenTo_add, tenTo_succ]
    ring
  exact hlast (by omega) (by rw [hn, Nat.mul_mod_right])

theorem Normal.eq_of_toRat {x y : Decimal} (hx : x.Normal) (hy : y.Normal)
    (h : x.toRat = y.toRat) : x = y := by
  rw [toRat_eq_iff] at h
  have hmantissa : x.mantissa * tenTo y.scale = y.mantissa * tenTo x.scale := by
    have habs := congrArg Int.natAbs h
    rwa [Int.natAbs_mul, Int.natAbs_mul, natAbs_signed, natAbs_signed, Int.natAbs_natCast,
      Int.natAbs_natCast] at habs
  have hscale : x.scale = y.scale :=
    Nat.le_antisymm (not_lt.1 (not_lt_of_last hx.last hmantissa.symm))
      (not_lt.1 (not_lt_of_last hy.last hmantissa))
  rw [hscale] at h hmantissa
  have hsigned : x.signed = y.signed :=
    Int.eq_of_mul_eq_mul_right (Int.natCast_pos.2 (tenTo_pos y.scale)).ne' h
  have hdigits : x.mantissa = y.mantissa := Nat.eq_of_mul_eq_mul_right (tenTo_pos _) hmantissa
  have hsign : x.negative = y.negative := by
    by_cases hzero : x.mantissa = 0
    · rw [hx.unsigned hzero, hy.unsigned (hdigits ▸ hzero)]
    · unfold signed at hsigned
      cases hxs : x.negative <;> cases hys : y.negative <;> simp [hxs, hys] at hsigned ⊢ <;> omega
  cases x
  cases y
  cases hsign
  cases hdigits
  cases hscale
  rfl

/-- Decimals of one value have one normal form. -/
theorem normalize_eq_of_toRat {x y : Decimal} (h : x.toRat = y.toRat) :
    x.normalize = y.normalize := by
  refine (normal_normalize x).eq_of_toRat (normal_normalize y) ?_
  rw [toRat_normalize, toRat_normalize, h]

/-- Texts of decimals that are the same denote the same value. -/
theorem toRat_eq_of_chars {x y : Decimal} (h : x.chars = y.chars) : x.toRat = y.toRat := by
  obtain ⟨hscale, hsigned⟩ := (numeral_chars x).unique (h ▸ numeral_chars y)
  unfold toRat
  rw [hscale, hsigned]

/-! ## Rounding -/

/-- The integer nearest to a number, a half going away from zero. -/
structure Nearest (q : ℚ) (n : Int) : Prop where
  near : |q - n| ≤ 1 / 2
  away : |q - n| = 1 / 2 → |q| < |(n : ℚ)|

theorem Nearest.of_eq {q : ℚ} {n : Int} (h : q = n) : Nearest q n where
  near := by
    rw [h, sub_self, abs_zero]
    exact one_half_pos.le
  away htie := by
    rw [h, sub_self, abs_zero] at htie
    exact absurd htie one_half_pos.ne

theorem Nearest.neg {q : ℚ} {n : Int} (h : Nearest q n) : Nearest (-q) (-n) := by
  have hdistance : |(-q) - ((-n : Int) : ℚ)| = |q - n| := by
    rw [← abs_neg (q - n)]
    congr 1
    push_cast
    ring
  refine ⟨hdistance ▸ h.near, fun htie => ?_⟩
  rw [Int.cast_neg, abs_neg, abs_neg]
  exact h.away (hdistance ▸ htie)

/-- A quotient rounds up exactly if its remainder is half the divisor or more. -/
theorem nearest_quotient {m d q r : Nat} (hm : m = d * q + r) (hr : r < d) :
    Nearest (m / d) (if d ≤ 2 * r then q + 1 else q : Nat) := by
  have hd : (0 : ℚ) < d := Nat.cast_pos.2 (by omega)
  have hquotient : (m : ℚ) / d = q + r / d := by
    rw [hm]
    push_cast
    field_simp
  have hnonneg : (0 : ℚ) ≤ r / d := div_nonneg (Nat.cast_nonneg r) hd.le
  have hlt : (r : ℚ) / d < 1 := (div_lt_one hd).2 (Nat.cast_lt.2 hr)
  have hq : (0 : ℚ) ≤ q := Nat.cast_nonneg q
  by_cases hup : d ≤ 2 * r
  · have hhalf : (1 : ℚ) / 2 ≤ r / d := by
      rw [div_le_div_iff₀ two_pos hd]
      exact_mod_cast (by omega : 1 * d ≤ r * 2)
    have hnext : (((q + 1 : Nat) : Int) : ℚ) = q + 1 := by norm_cast
    rw [if_pos hup, hquotient]
    refine ⟨?_, fun _ => ?_⟩
    · rw [hnext]
      exact abs_le.2 ⟨by linarith, by linarith⟩
    · rw [hnext, abs_of_nonneg (by linarith), abs_of_nonneg (by linarith)]
      linarith
  · have hhalf : (r : ℚ) / d < 1 / 2 := by
      rw [div_lt_div_iff₀ hd two_pos]
      exact_mod_cast (by omega : r * 2 < 1 * d)
    have hdistance : |(q : ℚ) + r / d - ((q : Nat) : Int)| = r / d := by
      rw [Int.cast_natCast, add_sub_cancel_left, abs_of_nonneg hnonneg]
    rw [if_neg hup, hquotient]
    refine ⟨hdistance.le.trans hhalf.le, fun htie => ?_⟩
    exact absurd (hdistance.symm.trans htie) hhalf.ne

/-- The last digit that is dropped decides the rounding. -/
theorem nearest_of_lastDropped (m k : Nat) :
    Nearest (m / tenTo (k + 1))
      (if 5 ≤ m / tenTo k % 10 then m / tenTo k / 10 + 1 else m / tenTo k / 10 : Nat) := by
  have hlast : m / tenTo k % 10 = m % tenTo (k + 1) / tenTo k := by
    rw [tenTo_succ, Nat.mul_comm, Nat.mod_mul_right_div_self]
  have hhalf : 5 ≤ m / tenTo k % 10 ↔ tenTo (k + 1) ≤ 2 * (m % tenTo (k + 1)) := by
    rw [hlast, Nat.le_div_iff_mul_le (tenTo_pos k), tenTo_succ]
    omega
  have hquotient : m / tenTo k / 10 = m / tenTo (k + 1) := by
    rw [Nat.div_div_eq_div_mul, tenTo_succ, Nat.mul_comm]
  simp only [hhalf, hquotient]
  exact nearest_quotient (Nat.div_add_mod m (tenTo (k + 1))).symm (Nat.mod_lt m (tenTo_pos _))

theorem appendZeros_spec (mantissa room : Nat) :
    (appendZeros mantissa room).1 = mantissa * tenTo (appendZeros mantissa room).2 := by
  induction room generalizing mantissa with
  | zero => exact (Nat.mul_one mantissa).symm
  | succ room ih =>
    rw [appendZeros]
    split
    · simp only [ih, tenTo_succ]
      ring
    · exact (Nat.mul_one mantissa).symm

/-- A sign is added on both sides. -/
theorem Nearest.signed {x : Decimal} {d n : Nat} (h : Nearest (x.mantissa / d) n) :
    Nearest (x.signed / d) (if x.negative then -(n : Int) else n) := by
  unfold Decimal.signed
  cases x.negative with
  | false => exact h
  | true =>
    have hneg := h.neg
    rw [← neg_div] at hneg
    simp only [if_true, Int.cast_neg, Int.cast_natCast]
    exact hneg

/-- A decimal with fewer places is the nearest one, and one with more places is the same. -/
theorem nearest_rescale (x : Decimal) {places : Nat} (hplaces : places ≤ scaleLimit)
    (h : (x.rescale places hplaces).scale = places) :
    Nearest (x.toRat * tenTo places) (x.rescale places hplaces).signed := by
  have hpos : ∀ k, (tenTo k : ℚ) ≠ 0 := fun k => Nat.cast_ne_zero.2 (tenTo_pos k).ne'
  revert h
  unfold rescale
  split
  · rename_i hzero
    intro _
    refine .of_eq ?_
    rw [toRat, (signed_eq_zero_iff x).2 hzero]
    simp [signed]
  · split
    · rename_i hfewer
      intro _
      obtain ⟨k, hk⟩ : ∃ k, x.scale = places + (k + 1) := ⟨x.scale - places - 1, by omega⟩
      have hdropped : x.scale - places - 1 = k := by omega
      have hvalue : x.toRat * tenTo places = x.signed / tenTo (k + 1) := by
        rw [toRat, hk, tenTo_add]
        push_cast
        field_simp [hpos]
      rw [hvalue]
      simp only [hdropped]
      exact (nearest_of_lastDropped x.mantissa k).signed
    · intro h
      have hplaces : x.scale + (appendZeros x.mantissa (places - x.scale)).2 = places := h
      have hvalue : x.toRat * tenTo places =
          x.signed * tenTo (appendZeros x.mantissa (places - x.scale)).2 := by
        rw [toRat, ← hplaces, tenTo_add, hplaces]
        push_cast
        field_simp [hpos]
      refine .of_eq ?_
      rw [hvalue]
      simp only [signed, appendZeros_spec]
      split <;> push_cast <;> ring

/-- Cutting the places off a whole number keeps its value. -/
theorem toRat_truncate {x : Decimal} (h : x.isIntegral = true) : x.truncate.toRat = x.toRat := by
  have hwhole : ((x.mantissa / tenTo x.scale : Nat) : Int) * tenTo x.scale = x.mantissa := by
    exact_mod_cast Nat.div_mul_cancel (Nat.dvd_of_mod_eq_zero (of_decide_eq_true h))
  have hsigned : x.truncate.signed * tenTo x.scale = x.signed := by
    unfold signed truncate
    cases x.negative with
    | false => exact hwhole
    | true => exact (Int.neg_mul _ _).trans (congrArg Neg.neg hwhole)
  rw [toRat_eq_iff, hsigned]
  exact (Int.mul_one _).symm

end Decimal

end DataGrid.Number
