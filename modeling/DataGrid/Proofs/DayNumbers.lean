import DataGrid.Calendar.Moment

/-!
# Day numbers

Every number is the number of the day that `ofDayNumber` finds for it: the year is the one
whose days hold it, and the walk through the months of that year ends at the day with the right
number in the year. So a moment on a wall clock keeps its second when it is made of it.
-/

namespace DataGrid

namespace Calendar

/-! ## Years -/

theorem isLeapYear_eq_true {year : Int} :
    isLeapYear year = true ↔ year % 4 = 0 ∧ (year % 100 ≠ 0 ∨ year % 400 = 0) := by
  unfold isLeapYear
  simp

theorem daysBeforeYear_succ (year : Int) :
    daysBeforeYear (year + 1) = daysBeforeYear year + daysInYear year := by
  unfold daysInYear daysBeforeYear
  split
  · rename_i h
    rw [isLeapYear_eq_true] at h
    omega
  · rename_i h
    rw [isLeapYear_eq_true] at h
    omega

/-- A year starts less than two days from its place among years of 146097/400 days each, so that
the first guess at a year misses it by one at most. -/
theorem daysBeforeYear_bounds (year : Int) :
    146097 * year - 400 < 400 * daysBeforeYear year ∧
      400 * daysBeforeYear year < 146097 * year + 700 := by
  unfold daysBeforeYear
  omega

namespace Date

theorem yearOfDay_spec (n : Int) :
    daysBeforeYear (yearOfDay n) ≤ n ∧ n < daysBeforeYear (yearOfDay n + 1) := by
  unfold yearOfDay
  simp only
  generalize hguess : 400 * n / 146097 = guess
  have hbefore := daysBeforeYear_bounds (guess - 1)
  have hguessed := daysBeforeYear_bounds guess
  have hafter := daysBeforeYear_bounds (guess + 1)
  have hnext := daysBeforeYear_bounds (guess + 1 + 1)
  split
  · rw [Int.sub_add_cancel]
    omega
  · split
    · omega
    · omega

end Date

/-! ## Months -/

theorem daysBeforeMonth_succ (year : Int) {month : Nat} (h : 1 ≤ month) :
    daysBeforeMonth year (month + 1) = daysBeforeMonth year month + daysInMonth year month := by
  obtain ⟨k, rfl⟩ := Nat.exists_eq_add_of_le' h
  unfold daysBeforeMonth
  rw [Nat.add_sub_cancel, Nat.add_sub_cancel, List.range_succ, List.foldl_append]
  rfl

theorem daysBeforeMonth_last (year : Int) : daysBeforeMonth year 13 = daysInYear year := by
  have hyear : daysBeforeMonth year 13 = 337 + daysInMonth year 2 := by
    show 0 + 31 + daysInMonth year 2 + 31 + 30 + 31 + 30 + 31 + 31 + 30 + 31 + 30 + 31 = _
    omega
  rw [hyear]
  unfold daysInMonth daysInYear
  simp only
  split <;> rfl

namespace Date

variable {year : Int}

/-- A walk through the months that ends within the year ends at the day with its number. -/
theorem walkMonths_spec {left month offset : Nat} (hmonth : 1 ≤ month) (hlast : month + left = 12)
    (hoffset : daysBeforeMonth year month + offset < daysInYear year) :
    (walkMonths year left month offset).year = year ∧
      (walkMonths year left month offset).ordinal = daysBeforeMonth year month + offset + 1 := by
  induction left generalizing month offset with
  | zero =>
    obtain rfl : month = 12 := hlast
    have hdays : daysBeforeMonth year 12 + 31 = daysInYear year := by
      rw [← daysBeforeMonth_last, daysBeforeMonth_succ year (by decide)]
      rfl
    unfold walkMonths
    rw [dif_pos (show offset < 31 by omega)]
    refine ⟨rfl, ?_⟩
    show daysBeforeMonth year 12 + (offset + 1) = daysBeforeMonth year 12 + offset + 1
    rw [Nat.add_assoc]
  | succ left ih =>
    unfold walkMonths
    split
    · exact ⟨rfl, rfl⟩
    · rename_i hlater
      have hnext := daysBeforeMonth_succ year hmonth
      have hrest := ih (show 1 ≤ month + 1 by omega) (by omega)
        (show daysBeforeMonth year (month + 1) + (offset - daysInMonth year month) < _ by omega)
      refine ⟨hrest.1, hrest.2.trans ?_⟩
      omega

/-- Every number is the number of the day that is found for it. -/
theorem dayNumber_ofDayNumber (n : Int) : (ofDayNumber n).dayNumber = n := by
  obtain ⟨hfirst, hlast⟩ := yearOfDay_spec (n + epochDay)
  rw [daysBeforeYear_succ] at hlast
  have hoffset : daysBeforeMonth (yearOfDay (n + epochDay)) 1 +
      (n + epochDay - daysBeforeYear (yearOfDay (n + epochDay))).toNat <
        daysInYear (yearOfDay (n + epochDay)) := by
    show 0 + _ < _
    omega
  obtain ⟨hyear, hordinal⟩ := walkMonths_spec (Nat.le_refl 1) (show 1 + 11 = 12 from rfl) hoffset
  have hstart : daysBeforeMonth (yearOfDay (n + epochDay)) 1 = 0 := rfl
  unfold dayNumber ofDayNumber
  simp only
  rw [hyear, hordinal, hstart]
  omega

end Date

theorem LocalDateTime.epochSecond_ofEpochSecond (n : Int) (nano : Nat)
    (h : nano < 2 * nanosInSecond) : (ofEpochSecond n nano h).epochSecond = n := by
  unfold ofEpochSecond epochSecond
  simp only
  rw [Date.dayNumber_ofDayNumber]
  unfold secondsInDay
  omega

end Calendar

end DataGrid
