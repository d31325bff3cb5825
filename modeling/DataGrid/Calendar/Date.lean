/-!
# Dates of the proleptic Gregorian calendar

A `Date` is a year, a month and a day that exist. Its `dayNumber` counts the days
from 1970-01-01, and `ofDayNumber` goes back; dates are ordered by that number.
`ofDayNumber` first finds the year, which one division gets right up to one, and
then walks through the lengths of the months.
-/

namespace DataGrid.Calendar

def isLeapYear (year : Int) : Bool :=
  year % 4 == 0 && (year % 100 != 0 || year % 400 == 0)

/-- The number of days of a month; no days for what is no month. -/
def daysInMonth (year : Int) (month : Nat) : Nat :=
  match month with
  | 1 | 3 | 5 | 7 | 8 | 10 | 12 => 31
  | 4 | 6 | 9 | 11 => 30
  | 2 => if isLeapYear year then 29 else 28
  | _ => 0

/-- The number of days of a year. -/
def daysInYear (year : Int) : Nat := if isLeapYear year then 366 else 365

/-- A day of the calendar. -/
structure Date where
  year : Int
  month : Nat
  day : Nat
  day_pos : 1 ≤ day
  day_le : day ≤ daysInMonth year month
  deriving DecidableEq

namespace Date

/-- The first and the last year that can be read. -/
def leastYear : Int := -262143
def greatestYear : Int := 262142

/-- The date of these parts, if they are a day of a readable year. -/
def of? (year : Int) (month day : Nat) : Option Date :=
  if h : (leastYear ≤ year ∧ year ≤ greatestYear) ∧ 1 ≤ day ∧ day ≤ daysInMonth year month then
    some ⟨year, month, day, h.2.1, h.2.2⟩
  else none

end Date

/-- Days from the first day of year 0 to the first day of `year`. -/
def daysBeforeYear (year : Int) : Int :=
  365 * year + (year + 3) / 4 - (year + 99) / 100 + (year + 399) / 400

/-- Days from the first day of a year to the first day of its month `month`. -/
def daysBeforeMonth (year : Int) (month : Nat) : Nat :=
  (List.range (month - 1)).foldl (fun days m => days + daysInMonth year (m + 1)) 0

/-- The day number of the first day of year 0. -/
def epochDay : Int := 719528

namespace Date

/-- The number of the day in its year, from 1 on. -/
def ordinal (d : Date) : Nat := daysBeforeMonth d.year d.month + d.day

/-- Days from 1970-01-01 to the date. -/
def dayNumber (d : Date) : Int := daysBeforeYear d.year + (d.ordinal - 1 : Int) - epochDay

/-- Days since the last Monday. -/
def daysFromMonday (d : Date) : Nat := ((d.dayNumber + 3) % 7).toNat

/-- Days since the last Sunday. -/
def daysFromSunday (d : Date) : Nat := ((d.dayNumber + 4) % 7).toNat

/-- The year that holds the day with this many days before it, from year 0 on. -/
def yearOfDay (n : Int) : Int :=
  let guess := 400 * n / 146097
  if n < daysBeforeYear guess then guess - 1
  else if daysBeforeYear (guess + 1) ≤ n then guess + 1
  else guess

/-- The date `offset` days into the month `month`, or into one of the `left` months after
it; the last day of the year if there are fewer days. -/
def walkMonths (year : Int) : (left month offset : Nat) → Date
  | 0, _, offset =>
    if h : offset < 31 then ⟨year, 12, offset + 1, by omega, by simp only [daysInMonth]; omega⟩
    else ⟨year, 12, 31, by omega, by simp [daysInMonth]⟩
  | left + 1, month, offset =>
    if h : offset < daysInMonth year month then ⟨year, month, offset + 1, by omega, by omega⟩
    else walkMonths year left (month + 1) (offset - daysInMonth year month)

/-- The date of a day number. -/
def ofDayNumber (n : Int) : Date :=
  let day := n + epochDay
  let year := yearOfDay day
  walkMonths year 11 1 (day - daysBeforeYear year).toNat

def isReadable (d : Date) : Bool := leastYear ≤ d.year && d.year ≤ greatestYear

/-- The order in time. -/
def compare (a b : Date) : Ordering := Ord.compare a.dayNumber b.dayNumber

/-- The week-numbering year and week: weeks start on Monday, and the first one is that with
the year's first Thursday. -/
def isoWeek (d : Date) : Int × Nat :=
  let thursday := ofDayNumber (d.dayNumber - d.daysFromMonday + 3)
  (thursday.year, (thursday.ordinal - 1) / 7 + 1)

end Date

end DataGrid.Calendar
