import DataGrid.Number.Decimal

/-!
# Adding decimals

Every decimal is a whole number of units of the last place that a scale can have, and so is every
sum of decimals. A sum with a decimal form is found exactly, whatever the scales and signs, and a
sum that rounds to `mantissaLimit` or beyond has no result. Between the two lie sums that are in
range but have too many digits: these are rounded.
-/

namespace DataGrid.Number

namespace Decimal

/-- The value in units of the last place that a scale can have. -/
def units (x : Decimal) : Int := x.signed * tenTo (scaleLimit - x.scale)

/-- Whether a number of units has a decimal form. -/
def Representable (n : Int) : Prop := ∃ x : Decimal, x.units = n

/-- Whether a number of units rounds to a whole number that no mantissa can hold. -/
def OutOfRange (n : Int) : Prop :=
  2 * (mantissaLimit * tenTo scaleLimit) ≤ 2 * n.natAbs + tenTo scaleLimit

theorem natAbs_signed (x : Decimal) : x.signed.natAbs = x.mantissa := by
  unfold signed
  split <;> omega

theorem natAbs_units (x : Decimal) :
    x.units.natAbs = x.mantissa * tenTo (scaleLimit - x.scale) := by
  unfold units
  rw [Int.natAbs_mul, Int.natAbs_natCast, natAbs_signed]

theorem units_of_mantissa_eq_zero {x : Decimal} (h : x.mantissa = 0) : x.units = 0 := by
  rw [← Int.natAbs_eq_zero, natAbs_units, h, Nat.zero_mul]

theorem not_outOfRange_units (x : Decimal) : ¬ OutOfRange x.units := by
  unfold OutOfRange
  rw [natAbs_units]
  have hmantissa := x.mantissa_lt
  have hplaces : tenTo (scaleLimit - x.scale) ≤ tenTo scaleLimit := tenTo_le (Nat.sub_le ..)
  have hlt : (x.mantissa + 1) * tenTo scaleLimit ≤ mantissaLimit * tenTo scaleLimit :=
    Nat.mul_le_mul_right _ hmantissa
  have hle : x.mantissa * tenTo (scaleLimit - x.scale) ≤ x.mantissa * tenTo scaleLimit :=
    Nat.mul_le_mul_left _ hplaces
  have hpos := tenTo_pos scaleLimit
  rw [Nat.add_mul] at hlt
  omega

/-! ## The scale of a sum -/

theorem of?_eq_some {negative : Bool} {m s : Nat} (hm : m < mantissaLimit) (hs : s ≤ scaleLimit) :
    of? negative m s = some ⟨negative, m, s, hm, hs⟩ := dif_pos ⟨hm, hs⟩

theorem of?_eq_none {negative : Bool} {m s : Nat} (hm : mantissaLimit ≤ m) :
    of? negative m s = none := dif_neg fun h => Nat.not_lt.2 hm h.1

theorem of?_inv {negative : Bool} {m s : Nat} {z : Decimal} (h : of? negative m s = some z) :
    ∃ hbound : m < mantissaLimit ∧ s ≤ scaleLimit, z = ⟨negative, m, s, hbound.1, hbound.2⟩ := by
  unfold of? at h
  split at h
  · rename_i hbound
    cases h
    exact ⟨hbound, rfl⟩
  · cases h

/-- A mantissa out of range that has a form in range ends in a zero. -/
theorem exists_fewer_places {x : Decimal} {q scale : Nat} (hscale : scale + 1 ≤ scaleLimit)
    (hq : mantissaLimit ≤ q)
    (h : x.mantissa * tenTo (scaleLimit - x.scale) = q * tenTo (scaleLimit - (scale + 1))) :
    ∃ r, q = 10 * r ∧ r * tenTo (scaleLimit - scale) = q * tenTo (scaleLimit - (scale + 1)) := by
  -- The form has fewer places: with as many or more its mantissa would be as large as `q`.
  have hplaces : x.scale ≤ scale := by
    refine Nat.not_lt.1 fun hlt => Nat.ne_of_lt ?_ h
    calc x.mantissa * tenTo (scaleLimit - x.scale)
        ≤ x.mantissa * tenTo (scaleLimit - (scale + 1)) :=
          Nat.mul_le_mul_left _ (tenTo_le (by omega))
      _ < q * tenTo (scaleLimit - (scale + 1)) :=
          Nat.mul_lt_mul_of_pos_right (Nat.lt_of_lt_of_le x.mantissa_lt hq) (tenTo_pos _)
  have hsplit : scaleLimit - x.scale = scale - x.scale + 1 + (scaleLimit - (scale + 1)) := by
    omega
  have hvalue : q = x.mantissa * tenTo (scale - x.scale + 1) := by
    rw [hsplit, tenTo_add, ← Nat.mul_assoc] at h
    exact (Nat.eq_of_mul_eq_mul_right (tenTo_pos _) h).symm
  rw [tenTo_succ, Nat.mul_left_comm] at hvalue
  refine ⟨x.mantissa * tenTo (scale - x.scale), hvalue, ?_⟩
  have hnext : scaleLimit - scale = scaleLimit - (scale + 1) + 1 := by omega
  rw [hnext, tenTo_succ, hvalue, Nat.mul_left_comm, Nat.mul_assoc 10]

/-- A value with a decimal form keeps it: only zeros are dropped. -/
theorem fit?_of_representable (negative : Bool) {x : Decimal} {q scale : Nat} (dropped : Nat)
    (hscale : scale ≤ scaleLimit)
    (h : x.mantissa * tenTo (scaleLimit - x.scale) = q * tenTo (scaleLimit - scale)) :
    ∃ z, fit? negative (q * tenTo dropped) scale dropped = some z ∧ z.negative = negative ∧
      z.mantissa * tenTo (scaleLimit - z.scale) = q * tenTo (scaleLimit - scale) := by
  induction scale generalizing q dropped with
  | zero =>
    -- Without places behind the point `q` is no larger than the mantissa of the form.
    have hq : q ≤ x.mantissa := by
      refine Nat.le_of_mul_le_mul_right ?_ (tenTo_pos scaleLimit)
      show q * tenTo (scaleLimit - 0) ≤ _
      rw [← h]
      exact Nat.mul_le_mul_left _ (tenTo_le (Nat.sub_le ..))
    have hlt : q < mantissaLimit := Nat.lt_of_le_of_lt hq x.mantissa_lt
    rw [fit?, divNearestEven_mul (tenTo_pos dropped), of?_eq_some hlt (Nat.zero_le _)]
    exact ⟨_, rfl, rfl, rfl⟩
  | succ scale ih =>
    rw [fit?, divNearestEven_mul (tenTo_pos dropped)]
    by_cases hlt : q < mantissaLimit
    · rw [of?_eq_some hlt hscale]
      exact ⟨_, rfl, rfl, rfl⟩
    · rw [of?_eq_none (Nat.not_lt.1 hlt)]
      obtain ⟨r, hten, hr⟩ := exists_fewer_places hscale (Nat.not_lt.1 hlt) h
      have hdropped : q * tenTo dropped = r * tenTo (dropped + 1) := by
        rw [hten, tenTo_succ, Nat.mul_comm 10 r, Nat.mul_assoc]
      rw [hdropped, ← hr]
      exact ih (dropped + 1) (Nat.le_of_succ_le hscale) (h.trans hr.symm)

/-- At no place behind the point there is no form exactly if the value rounds to the limit. -/
theorem fit?_eq_none_iff (negative : Bool) (mantissa scale dropped : Nat) :
    fit? negative mantissa scale dropped = none ↔
      2 * (mantissaLimit * tenTo (scale + dropped)) ≤ 2 * mantissa + tenTo (scale + dropped) := by
  induction scale generalizing dropped with
  | zero =>
    rw [Nat.zero_add, fit?]
    constructor
    · intro h
      have hnear : 2 * divNearestEven mantissa (tenTo dropped) * tenTo dropped ≤
          2 * mantissa + tenTo dropped := (divNearestEven_near (tenTo_pos dropped)).2
      have hround : mantissaLimit ≤ divNearestEven mantissa (tenTo dropped) := by
        refine Nat.not_lt.1 fun hlt => ?_
        rw [of?_eq_some hlt (Nat.zero_le _)] at h
        cases h
      rw [← Nat.mul_assoc]
      exact Nat.le_trans (Nat.mul_le_mul_right _ (Nat.mul_le_mul_left 2 hround)) hnear
    · intro h
      exact of?_eq_none (le_divNearestEven_of_even (by decide) (tenTo_pos dropped) h)
  | succ scale ih =>
    have hsum : scale + 1 + dropped = scale + (dropped + 1) := by omega
    rw [fit?]
    constructor
    · intro h
      split at h
      · cases h
      · rw [hsum]
        exact (ih (dropped + 1)).1 h
    · intro h
      -- What rounds to the limit with no place kept does so with some places kept.
      have hround : mantissaLimit ≤ divNearestEven mantissa (tenTo dropped) := by
        refine le_divNearestEven_of_even (by decide) (tenTo_pos dropped) ?_
        have hplaces : tenTo dropped ≤ tenTo (scale + 1 + dropped) := tenTo_le (by omega)
        simp only [mantissaLimit] at h ⊢
        omega
      rw [hsum] at h
      rw [of?_eq_none hround]
      exact (ih (dropped + 1)).2 h

theorem fit?_near {negative : Bool} {mantissa scale dropped : Nat} {z : Decimal}
    (h : fit? negative mantissa scale dropped = some z) :
    z.negative = negative ∧ z.scale ≤ scale ∧
      2 * mantissa ≤ (2 * z.mantissa + 1) * tenTo (scale + dropped - z.scale) ∧
      2 * z.mantissa * tenTo (scale + dropped - z.scale) ≤
        2 * mantissa + tenTo (scale + dropped - z.scale) := by
  induction scale generalizing dropped with
  | zero =>
    obtain ⟨hbound, rfl⟩ := of?_inv h
    rw [Nat.zero_add, Nat.sub_zero]
    exact ⟨rfl, Nat.le_refl 0, divNearestEven_near (tenTo_pos dropped)⟩
  | succ scale ih =>
    rw [fit?] at h
    split at h
    · rename_i x hx
      cases h
      obtain ⟨hbound, rfl⟩ := of?_inv hx
      rw [Nat.add_sub_cancel_left]
      exact ⟨rfl, Nat.le_refl _, divNearestEven_near (tenTo_pos dropped)⟩
    · have hsum : scale + 1 + dropped = scale + (dropped + 1) := by omega
      obtain ⟨hsign, hscale, hnear⟩ := ih h
      rw [hsum]
      exact ⟨hsign, Nat.le_succ_of_le hscale, hnear⟩

/-! ## Sums in units -/

theorem signed_mul_tenTo {x : Decimal} {scale : Nat} (h : x.scale ≤ scale)
    (hscale : scale ≤ scaleLimit) :
    x.signed * tenTo (scale - x.scale) * tenTo (scaleLimit - scale) = x.units := by
  have hsplit : scaleLimit - x.scale = scale - x.scale + (scaleLimit - scale) := by omega
  rw [units, hsplit, tenTo_add, Int.natCast_mul, Int.mul_assoc]

/-- A sum is one of its terms, the other being zero, or the total at some scale made to fit. -/
theorem sum?_cases (x y : Decimal) :
    (x.sum? y = some y ∧ x.units = 0) ∨ (x.sum? y = some x ∧ y.units = 0) ∨
      ∃ (total : Int) (scale : Nat), scale ≤ scaleLimit ∧
        total * tenTo (scaleLimit - scale) = x.units + y.units ∧
        x.sum? y = fit? (total < 0) total.natAbs scale 0 := by
  unfold sum?
  by_cases hx : x.mantissa = 0
  · exact .inl ⟨if_pos hx, units_of_mantissa_eq_zero hx⟩
  rw [if_neg hx]
  by_cases hy : y.mantissa = 0
  · exact .inr (.inl ⟨if_pos hy, units_of_mantissa_eq_zero hy⟩)
  rw [if_neg hy]
  have hscale : max x.scale y.scale ≤ scaleLimit := Nat.max_le.2 ⟨x.scale_le, y.scale_le⟩
  refine .inr (.inr ⟨_, _, hscale, ?_, rfl⟩)
  rw [Int.add_mul, signed_mul_tenTo (Nat.le_max_left ..) hscale,
    signed_mul_tenTo (Nat.le_max_right ..) hscale]

theorem units_of_sign {z : Decimal} {n : Int} (hsign : z.negative = decide (n < 0)) :
    (n < 0 ∧ z.units = -(z.units.natAbs : Int)) ∨ (0 ≤ n ∧ z.units = z.units.natAbs) := by
  rw [natAbs_units]
  unfold units signed
  rw [hsign]
  by_cases hn : n < 0
  · rw [if_pos (decide_eq_true hn), Int.neg_mul, ← Int.natCast_mul]
    exact .inl ⟨hn, rfl⟩
  · rw [if_neg (by simpa using hn), ← Int.natCast_mul]
    exact .inr ⟨Int.not_lt.1 hn, rfl⟩

theorem sign_of_total {z : Decimal} {total n : Int} {places : Nat}
    (htotal : total * tenTo places = n) (hsign : z.negative = decide (total < 0)) :
    (n < 0 ∧ z.units = -(z.units.natAbs : Int)) ∨ (0 ≤ n ∧ z.units = z.units.natAbs) := by
  refine units_of_sign (hsign.trans (decide_eq_decide.2 ?_))
  have hpos : (0 : Int) < tenTo places := Int.natCast_pos.2 (tenTo_pos places)
  rw [← htotal]
  constructor
  · exact fun h => Int.mul_neg_of_neg_of_pos h hpos
  · exact fun h => Int.not_le.1 fun hle =>
      Int.not_le.2 h (Int.mul_nonneg hle (Int.le_of_lt hpos))

/-- A sum with a decimal form is exact. -/
theorem sum?_of_representable {x y : Decimal} (h : Representable (x.units + y.units)) :
    ∃ z, x.sum? y = some z ∧ z.units = x.units + y.units := by
  obtain ⟨hsum, hzero⟩ | ⟨hsum, hzero⟩ | ⟨total, scale, hscale, htotal, hsum⟩ := sum?_cases x y
  · exact ⟨y, hsum, by omega⟩
  · exact ⟨x, hsum, by omega⟩
  obtain ⟨w, hw⟩ := h
  have hsize : w.mantissa * tenTo (scaleLimit - w.scale) =
      total.natAbs * tenTo (scaleLimit - scale) := by
    rw [← natAbs_units, hw, ← htotal, Int.natAbs_mul, Int.natAbs_natCast]
  obtain ⟨z, hz, hsign, hmantissa⟩ := fit?_of_representable (decide (total < 0)) 0 hscale hsize
  have hdigits : total.natAbs * tenTo 0 = total.natAbs := Nat.mul_one _
  rw [hdigits] at hz
  refine ⟨z, hsum.trans hz, ?_⟩
  have habs : z.units.natAbs = (x.units + y.units).natAbs := by
    rw [natAbs_units, hmantissa, ← htotal, Int.natAbs_mul, Int.natAbs_natCast]
  have hside := sign_of_total htotal hsign
  omega

/-- Only a sum out of range has no result. -/
theorem sum?_eq_none_iff (x y : Decimal) :
    x.sum? y = none ↔ OutOfRange (x.units + y.units) := by
  obtain ⟨hsum, hzero⟩ | ⟨hsum, hzero⟩ | ⟨total, scale, hscale, htotal, hsum⟩ := sum?_cases x y
  · rw [hsum, hzero, Int.zero_add]
    exact iff_of_false nofun (not_outOfRange_units y)
  · rw [hsum, hzero, Int.add_zero]
    exact iff_of_false nofun (not_outOfRange_units x)
  have hplaces : tenTo scaleLimit = tenTo scale * tenTo (scaleLimit - scale) := by
    rw [← tenTo_add, Nat.add_sub_cancel' hscale]
  rw [hsum, fit?_eq_none_iff, OutOfRange, ← htotal, Int.natAbs_mul, Int.natAbs_natCast, hplaces,
    Nat.add_zero, ← Nat.mul_assoc, ← Nat.mul_assoc, ← Nat.mul_assoc, ← Nat.mul_assoc,
    ← Nat.add_mul]
  exact (Nat.mul_le_mul_right_iff (tenTo_pos _)).symm

/-- A sum is at most half a unit of its last place away from the exact one. -/
theorem sum?_near {x y z : Decimal} (h : x.sum? y = some z) :
    2 * (z.units - (x.units + y.units)).natAbs ≤ tenTo (scaleLimit - z.scale) := by
  obtain ⟨hsum, hzero⟩ | ⟨hsum, hzero⟩ | ⟨total, scale, hscale, htotal, hsum⟩ := sum?_cases x y
  · rw [hsum] at h
    cases h
    omega
  · rw [hsum] at h
    cases h
    omega
  rw [hsum] at h
  obtain ⟨hsign, hplaces, hupper, hlower⟩ := fit?_near h
  have hside := sign_of_total htotal hsign
  have hexact : (x.units + y.units).natAbs = total.natAbs * tenTo (scaleLimit - scale) := by
    rw [← htotal, Int.natAbs_mul, Int.natAbs_natCast]
  have hunit : tenTo (scaleLimit - z.scale) =
      tenTo (scale + 0 - z.scale) * tenTo (scaleLimit - scale) := by
    rw [← tenTo_add]
    congr 1
    omega
  have hresult := natAbs_units z
  -- Both bounds in units: the result and the exact sum lie on one side of zero.
  replace hupper := Nat.mul_le_mul_right (tenTo (scaleLimit - scale)) hupper
  replace hlower := Nat.mul_le_mul_right (tenTo (scaleLimit - scale)) hlower
  rw [Nat.mul_assoc, Nat.mul_assoc, ← hexact, ← hunit, Nat.add_mul, Nat.mul_assoc, ← hresult,
    Nat.one_mul] at hupper
  rw [Nat.add_mul, Nat.mul_assoc, Nat.mul_assoc, Nat.mul_assoc, ← hexact, ← hunit,
    ← hresult] at hlower
  omega

/-! ## Whole numbers -/

/-- The decimal of a whole number without places behind the point. -/
def whole (n : Int) (h : n.natAbs < mantissaLimit) : Decimal :=
  ⟨n < 0, n.natAbs, 0, h, Nat.zero_le _⟩

@[simp] theorem whole_mantissa {n : Int} (h : n.natAbs < mantissaLimit) :
    (whole n h).mantissa = n.natAbs := rfl

@[simp] theorem whole_scale {n : Int} (h : n.natAbs < mantissaLimit) : (whole n h).scale = 0 := rfl

@[simp] theorem whole_signed {n : Int} (h : n.natAbs < mantissaLimit) :
    (whole n h).signed = n := by
  simp only [signed, whole, decide_eq_true_eq]
  split <;> omega

theorem natAbs_toInt_lt (n : Int64) : n.toInt.natAbs < mantissaLimit := (ofInt64 n).mantissa_lt

theorem ofInt64_eq_whole (n : Int64) : ofInt64 n = whole n.toInt (natAbs_toInt_lt n) := rfl

theorem units_whole {n : Int} (h : n.natAbs < mantissaLimit) :
    (whole n h).units = n * tenTo scaleLimit := by
  simp [units]

theorem sum?_whole {m n : Int} {hm : m.natAbs < mantissaLimit} {hn : n.natAbs < mantissaLimit}
    (h : (m + n).natAbs < mantissaLimit) :
    (whole m hm).sum? (whole n hn) = some (whole (m + n) h) := by
  by_cases hm0 : m = 0
  · subst hm0
    simp [sum?, whole]
  by_cases hn0 : n = 0
  · subst hn0
    simp [sum?, whole, hm0]
  have hone : tenTo 0 = 1 := rfl
  have hround : divNearestEven (m + n).natAbs 1 = (m + n).natAbs := by
    have hexact := divNearestEven_mul (n := (m + n).natAbs) Nat.one_pos
    rwa [Nat.mul_one] at hexact
  simp only [sum?, whole_mantissa, whole_scale, whole_signed, Int.natAbs_eq_zero, hm0, hn0,
    if_false, Nat.max_self, Nat.sub_self, hone, Int.natCast_one, Int.mul_one, fit?, hround]
  exact of?_eq_some h (Nat.zero_le _)

end Decimal
end DataGrid.Number
