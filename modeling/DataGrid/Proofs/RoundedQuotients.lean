import DataGrid.Number.Rounding
import Mathlib.Tactic.Ring

/-!
# Bounds on rounded quotients

A count fits a number of binary digits if it has no more significant ones. Rounding a quotient to
so many digits gives a count that fits, and it never passes one that does: what lies below a count
that fits is rounded to it or below, and what lies above to it or above. So rounding keeps the order
of quotients. Half a unit of the last digit beyond a power of two is rounded back to it.
-/

namespace DataGrid.Number

/-! ## Whole quotients -/

theorem divNearestEven_le {k num den : Nat} (hden : 0 < den) (h : num ≤ k * den) :
    divNearestEven num den ≤ k := by
  obtain ⟨-, hnear⟩ : _ ∧ 2 * divNearestEven num den * den ≤ 2 * num + den :=
    divNearestEven_near hden
  refine Nat.not_lt.1 fun hlt => ?_
  have hfar : (k + 1) * den ≤ divNearestEven num den * den := Nat.mul_le_mul_right den hlt
  rw [Nat.add_mul, Nat.one_mul] at hfar
  rw [Nat.mul_assoc] at hnear
  omega

theorem le_divNearestEven {k num den : Nat} (hden : 0 < den) (h : k * den ≤ num) :
    k ≤ divNearestEven num den := by
  obtain ⟨hnear, -⟩ : 2 * num ≤ (2 * divNearestEven num den + 1) * den ∧ _ :=
    divNearestEven_near hden
  refine Nat.not_lt.1 fun hlt => ?_
  have hfar : (divNearestEven num den + 1) * den ≤ k * den := Nat.mul_le_mul_right den hlt
  rw [Nat.add_mul, Nat.one_mul] at hfar
  rw [Nat.add_mul, Nat.one_mul, Nat.mul_assoc] at hnear
  omega

/-- Rounding keeps the order of quotients by one number. -/
theorem divNearestEven_mono {m n den : Nat} (hden : 0 < den) (h : m ≤ n) :
    divNearestEven m den ≤ divNearestEven n den := by
  have hquotients : m / den ≤ n / den := Nat.div_le_div_right h
  by_cases hnext : m / den < n / den
  · -- A number lies between the two.
    calc divNearestEven m den ≤ n / den := by
          refine divNearestEven_le hden ?_
          have hlt := Nat.lt_mul_of_div_lt hnext hden
          omega
      _ ≤ divNearestEven n den := le_divNearestEven hden (Nat.div_mul_le_self n den)
  · have hsame : m / den = n / den := by omega
    have hm := Nat.div_add_mod m den
    have hn := Nat.div_add_mod n den
    have hrests : m % den ≤ n % den := by rw [hsame] at hm; omega
    unfold divNearestEven
    simp only [hsame]
    repeat' split
    all_goals omega

/-- Up to half a unit above an even number, a quotient rounds to that number or below. -/
theorem divNearestEven_le_of_even {k num den : Nat} (heven : k % 2 = 0) (hden : 0 < den)
    (h : 2 * num ≤ 2 * (k * den) + den) : divNearestEven num den ≤ k := by
  have hnum := Nat.div_add_mod num den
  have hr := Nat.mod_lt num hden
  unfold divNearestEven
  simp only
  generalize num / den = q at hnum ⊢
  generalize num % den = r at hnum hr ⊢
  rw [Nat.mul_comm den q] at hnum
  have hq : q ≤ k := by
    refine Nat.not_lt.1 fun hlt => ?_
    have hfar : (k + 1) * den ≤ q * den := Nat.mul_le_mul_right den hlt
    rw [Nat.add_mul, Nat.one_mul] at hfar
    omega
  by_cases hk : q = k
  · subst hk
    repeat' split
    all_goals omega
  · repeat' split
    all_goals omega

/-! ## Binary digits -/

theorem binarySize_le {n k : Nat} (h : n < twoTo k) : binarySize n ≤ k := by
  unfold binarySize
  by_cases hn : n = 0
  · rw [if_pos hn]
    exact Nat.zero_le k
  · rw [if_neg hn]
    exact (Nat.log2_lt hn).2 h

theorem lt_twoTo_binarySize (n : Nat) : n < twoTo (binarySize n) := by
  unfold binarySize
  by_cases hn : n = 0
  · rw [if_pos hn, hn]
    exact twoTo_pos 0
  · rw [if_neg hn]
    exact Nat.lt_log2_self

theorem twoTo_le_of_lt_binarySize {n k : Nat} (h : k < binarySize n) : twoTo k ≤ n :=
  Nat.not_lt.1 fun hlt => Nat.not_lt.2 (binarySize_le hlt) h

theorem twoTo_le_twoTo {m n : Nat} (h : m ≤ n) : twoTo m ≤ twoTo n :=
  Nat.pow_le_pow_right (by decide) h

theorem twoTo_dvd_twoTo {m n : Nat} (h : m ≤ n) : twoTo m ∣ twoTo n := Nat.pow_dvd_pow 2 h

/-- Whether a count has at most `precision` significant binary digits. -/
def Fits (precision n : Nat) : Prop := twoTo (binarySize n - precision) ∣ n

theorem fits_of_dvd {precision n k : Nat} (hlt : n < twoTo (precision + k))
    (hdvd : twoTo k ∣ n) : Fits precision n := by
  have hsize := binarySize_le hlt
  exact Nat.dvd_trans (twoTo_dvd_twoTo (by omega)) hdvd

/-- A count of up to `precision` binary digits times a power of two fits. -/
theorem fits_mul_twoTo {precision c k : Nat} (hprecision : 0 < precision)
    (hc : c ≤ twoTo precision) : Fits precision (c * twoTo k) := by
  by_cases hfull : c = twoTo precision
  · -- The one count with a digit too many is a power of two.
    refine fits_of_dvd (k := k + 1) ?_ ?_
    · rw [hfull, ← twoTo_add]
      exact twoTo_lt (by omega)
    · rw [hfull, ← twoTo_add]
      exact twoTo_dvd_twoTo (by omega)
  · refine fits_of_dvd (k := k) ?_ (Nat.dvd_mul_left ..)
    rw [twoTo_add]
    exact Nat.mul_lt_mul_of_pos_right (by omega) (twoTo_pos k)

/-! ## Rounded counts -/

/-- The last place of a rounded quotient. -/
def lastPlace (precision num den : Nat) : Nat := twoTo (binarySize (num / den) - precision)

section Bounds

variable {precision num den k : Nat}

theorem nearestCount_eq (precision num den : Nat) :
    nearestCount precision num den =
      divNearestEven num (den * lastPlace precision num den) * lastPlace precision num den := rfl

theorem lastPlace_pos (precision num den : Nat) : 0 < lastPlace precision num den := twoTo_pos _

theorem lt_twoTo_size (hden : 0 < den) : num < twoTo (binarySize (num / den)) * den := by
  rw [← Nat.div_lt_iff_lt_mul hden]
  exact lt_twoTo_binarySize _

/-- A multiple of the last place that a quotient does not pass is not passed by rounding. -/
theorem nearestCount_le_of_dvd (hden : 0 < den) (hdvd : lastPlace precision num den ∣ k)
    (h : num ≤ k * den) : nearestCount precision num den ≤ k := by
  have hpos := lastPlace_pos precision num den
  rw [nearestCount_eq]
  generalize lastPlace precision num den = place at hdvd hpos ⊢
  obtain ⟨t, rfl⟩ := hdvd
  rw [Nat.mul_comm place t]
  refine Nat.mul_le_mul_right place (divNearestEven_le (Nat.mul_pos hden hpos) ?_)
  calc num ≤ place * t * den := h
    _ = t * (den * place) := by rw [Nat.mul_comm place t, Nat.mul_assoc, Nat.mul_comm place den]

theorem le_nearestCount_of_dvd (hden : 0 < den) (hdvd : lastPlace precision num den ∣ k)
    (h : k * den ≤ num) : k ≤ nearestCount precision num den := by
  have hpos := lastPlace_pos precision num den
  rw [nearestCount_eq]
  generalize lastPlace precision num den = place at hdvd hpos ⊢
  obtain ⟨t, rfl⟩ := hdvd
  rw [Nat.mul_comm place t]
  refine Nat.mul_le_mul_right place (le_divNearestEven (Nat.mul_pos hden hpos) ?_)
  calc t * (den * place) = place * t * den := by
        rw [Nat.mul_comm place t, Nat.mul_assoc, Nat.mul_comm place den]
    _ ≤ num := h

/-- The last place of a quotient divides every count that fits and has as many digits. -/
theorem lastPlace_dvd (hfits : Fits precision k) (hsize : binarySize k = binarySize (num / den)) :
    lastPlace precision num den ∣ k := by
  unfold lastPlace
  rw [← hsize]
  exact hfits

theorem nearestCount_le_twoTo_size (hden : 0 < den) :
    nearestCount precision num den ≤ twoTo (binarySize (num / den)) :=
  nearestCount_le_of_dvd hden (twoTo_dvd_twoTo (Nat.sub_le ..)) (Nat.le_of_lt (lt_twoTo_size hden))

/-- A quotient that does not pass a count that fits is not rounded beyond it. -/
theorem nearestCount_le (hden : 0 < den) (hfits : Fits precision k) (h : num ≤ k * den) :
    nearestCount precision num den ≤ k := by
  by_cases hlarge : twoTo (binarySize (num / den)) ≤ k
  · exact Nat.le_trans (nearestCount_le_twoTo_size hden) hlarge
  · -- The count is no less than the whole part of the quotient, and so has as many digits.
    have hupper : binarySize k ≤ binarySize (num / den) := binarySize_le (Nat.not_le.1 hlarge)
    have hlower : binarySize (num / den) ≤ binarySize k := by
      refine binarySize_le (Nat.lt_of_le_of_lt ?_ (lt_twoTo_binarySize k))
      exact Nat.div_le_of_le_mul (Nat.mul_comm k den ▸ h)
    exact nearestCount_le_of_dvd hden (lastPlace_dvd hfits (Nat.le_antisymm hupper hlower)) h

/-- A quotient that has reached a count that fits is not rounded below it. -/
theorem le_nearestCount (hprecision : 0 < precision) (hden : 0 < den) (hfits : Fits precision k)
    (h : k * den ≤ num) : k ≤ nearestCount precision num den := by
  have hupper : binarySize k ≤ binarySize (num / den) := by
    refine binarySize_le (Nat.lt_of_le_of_lt ?_ (lt_twoTo_binarySize (num / den)))
    exact (Nat.le_div_iff_mul_le hden).2 h
  by_cases hsize : binarySize k = binarySize (num / den)
  · exact le_nearestCount_of_dvd hden (lastPlace_dvd hfits hsize) h
  · -- A power of two lies between the count and the quotient.
    have hpower : twoTo (binarySize (num / den) - 1) * den ≤ num := by
      refine (Nat.le_div_iff_mul_le hden).1 (twoTo_le_of_lt_binarySize ?_)
      omega
    have hk : k ≤ twoTo (binarySize (num / den) - 1) :=
      Nat.le_trans (Nat.le_of_lt (lt_twoTo_binarySize k)) (twoTo_le_twoTo (by omega))
    exact Nat.le_trans hk
      (le_nearestCount_of_dvd hden (twoTo_dvd_twoTo (by omega)) hpower)

/-- A count that fits is not moved. -/
theorem nearestCount_of_fits (hprecision : 0 < precision) (hfits : Fits precision k) :
    nearestCount precision k 1 = k := by
  have hone : k * 1 = k := Nat.mul_one k
  exact Nat.le_antisymm (nearestCount_le Nat.one_pos hfits (Nat.le_of_eq hone.symm))
    (le_nearestCount hprecision Nat.one_pos hfits (Nat.le_of_eq hone))

/-- A rounded quotient fits. -/
theorem fits_nearestCount (hprecision : 0 < precision) (hden : 0 < den) :
    Fits precision (nearestCount precision num den) := by
  have hle : nearestCount precision num den ≤ twoTo (binarySize (num / den)) :=
    nearestCount_le_twoTo_size hden
  have hdvd : lastPlace precision num den ∣ nearestCount precision num den := by
    rw [nearestCount_eq]
    exact Nat.dvd_mul_left ..
  by_cases hfull : nearestCount precision num den = twoTo (binarySize (num / den))
  · rw [hfull]
    exact fits_of_dvd (k := binarySize (num / den)) (twoTo_lt (by omega)) (Nat.dvd_refl _)
  · have hsize := binarySize_le (Nat.lt_of_le_of_ne hle hfull)
    exact Nat.dvd_trans (twoTo_dvd_twoTo (by omega)) hdvd

/-- Rounding to leading digits keeps the order of quotients. -/
theorem nearestCount_mono {m n : Nat} (hprecision : 0 < precision) (hden : 0 < den) (h : m ≤ n) :
    nearestCount precision m den ≤ nearestCount precision n den := by
  have hquotients : m / den ≤ n / den := Nat.div_le_div_right h
  by_cases hsize : binarySize (m / den) = binarySize (n / den)
  · have hplace : lastPlace precision m den = lastPlace precision n den := by
      unfold lastPlace
      rw [hsize]
    rw [nearestCount_eq, nearestCount_eq, hplace]
    exact Nat.mul_le_mul_right _
      (divNearestEven_mono (Nat.mul_pos hden (lastPlace_pos precision n den)) h)
  · -- A power of two lies between the two.
    have hsizes : binarySize (m / den) < binarySize (n / den) :=
      Nat.lt_of_le_of_ne
        (binarySize_le (Nat.lt_of_le_of_lt hquotients (lt_twoTo_binarySize (n / den)))) hsize
    calc nearestCount precision m den ≤ twoTo (binarySize (m / den)) :=
          nearestCount_le_twoTo_size hden
      _ ≤ nearestCount precision n den := by
        refine le_nearestCount hprecision hden
          (fits_of_dvd (twoTo_lt (by omega)) (Nat.dvd_refl _)) ?_
        exact (Nat.le_div_iff_mul_le hden).1 (twoTo_le_of_lt_binarySize hsizes)

/-- Half a unit of the last digit beyond a power of two is rounded back to it. -/
theorem nearestCount_le_twoTo (hprecision : 1 < precision) (hden : 0 < den) (hk : precision ≤ k)
    (h : num ≤ (twoTo k + twoTo (k - precision)) * den) :
    nearestCount precision num den ≤ twoTo k := by
  by_cases hle : num ≤ twoTo k * den
  · exact nearestCount_le hden (fits_of_dvd (twoTo_lt (by omega)) (Nat.dvd_refl _)) hle
  · -- The quotient has one digit more than `k`, so its last place is two of the units in `h`.
    have hsize : binarySize (num / den) = k + 1 := by
      refine Nat.le_antisymm (binarySize_le ?_) (Nat.not_lt.1 fun hlt => ?_)
      · rw [Nat.div_lt_iff_lt_mul hden]
        refine Nat.lt_of_le_of_lt h (Nat.mul_lt_mul_of_pos_right ?_ hden)
        have hunit := twoTo_lt (m := k - precision) (n := k) (by omega)
        rw [twoTo_succ]
        omega
      · have hless : num / den < twoTo k :=
          Nat.lt_of_lt_of_le (lt_twoTo_binarySize _) (twoTo_le_twoTo (by omega))
        rw [Nat.div_lt_iff_lt_mul hden] at hless
        omega
    have hplace : lastPlace precision num den = 2 * twoTo (k - precision) := by
      rw [lastPlace, hsize, ← twoTo_succ]
      congr 1
      omega
    have hpower : twoTo k = 2 * twoTo (precision - 2) * (2 * twoTo (k - precision)) := by
      rw [← twoTo_succ, ← twoTo_succ, ← twoTo_add]
      congr 1
      omega
    rw [nearestCount_eq, hplace, hpower]
    refine Nat.mul_le_mul_right _ (divNearestEven_le_of_even (Nat.mul_mod_right ..)
      (Nat.mul_pos hden (Nat.mul_pos (by decide) (twoTo_pos _))) ?_)
    calc 2 * num ≤ 2 * ((twoTo k + twoTo (k - precision)) * den) := Nat.mul_le_mul_left 2 h
      _ = 2 * (2 * twoTo (precision - 2) * (den * (2 * twoTo (k - precision)))) +
            den * (2 * twoTo (k - precision)) := by
          rw [hpower]
          ring

end Bounds

end DataGrid.Number
