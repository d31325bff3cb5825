import DataGrid.Number.Power

/-!
# Rounding a quotient

`divNearestEven` rounds an exact quotient to the nearest natural number, a half
to the even neighbour. `nearestCount` keeps a number of leading binary digits of
a quotient, again with the half to the even neighbour.
-/

namespace DataGrid.Number

/-- The natural number nearest to `num / den`; of two equally near ones the even one. -/
def divNearestEven (num den : Nat) : Nat :=
  let q := num / den
  let r := num % den
  if 2 * r < den then q
  else if den < 2 * r then q + 1
  else if q % 2 = 0 then q else q + 1

/-- The number of binary digits of `n`, which is 0 for zero. -/
def binarySize (n : Nat) : Nat := if n = 0 then 0 else n.log2 + 1

/-- The natural number nearest to `num / den` that has at most `precision` binary
digits in front of its trailing zeros. -/
def nearestCount (precision num den : Nat) : Nat :=
  let size := binarySize (num / den)
  let step := twoTo (size - precision)
  divNearestEven num (den * step) * step

/-- The rounded quotient is at most half a unit away. -/
theorem divNearestEven_near {num den : Nat} (h : 0 < den) :
    2 * num ≤ (2 * divNearestEven num den + 1) * den ∧
      2 * divNearestEven num den * den ≤ 2 * num + den := by
  have hq := Nat.div_add_mod num den
  have hr := Nat.mod_lt num h
  generalize hq' : num / den = q at hq
  generalize hr' : num % den = r at hq hr
  have hcomm : q * den = den * q := Nat.mul_comm ..
  unfold divNearestEven
  simp only [hq', hr']
  split
  · constructor <;> grind
  · split
    · constructor <;> grind
    · split
      · constructor <;> grind
      · constructor <;> grind

/-- From half a unit below an even number on, a quotient rounds to that number or beyond. -/
theorem le_divNearestEven_of_even {k num den : Nat} (heven : k % 2 = 0) (hden : 0 < den)
    (h : 2 * (k * den) ≤ 2 * num + den) : k ≤ divNearestEven num den := by
  have hnum := Nat.div_add_mod num den
  have hr := Nat.mod_lt num hden
  unfold divNearestEven
  simp only
  generalize num / den = q at hnum ⊢
  generalize num % den = r at hnum hr ⊢
  rw [Nat.mul_comm den q] at hnum
  by_cases hk : k ≤ q
  · repeat' split
    all_goals omega
  · -- Then `k` is the number after the quotient, which is odd.
    have hnext : k = q + 1 := by
      refine Nat.le_antisymm (Nat.not_lt.1 fun hlt => ?_) (Nat.not_le.1 hk)
      have hfar : (q + 2) * den ≤ k * den := Nat.mul_le_mul_right den hlt
      rw [Nat.add_mul] at hfar
      omega
    rw [hnext, Nat.add_mul] at h
    repeat' split
    all_goals omega

/-- An exact quotient is not moved. -/
theorem divNearestEven_mul {n den : Nat} (h : 0 < den) : divNearestEven (n * den) den = n := by
  simp [divNearestEven, Nat.mul_div_cancel n h, h]

end DataGrid.Number
