/-!
# Times of day

A time of day is a second of the day and a count of nanoseconds in it. A leap
second is the second before it with a count of 10^9 nanoseconds or more.
-/

namespace DataGrid.Calendar

/-- The number of nanoseconds in a second. -/
def nanosInSecond : Nat := 1000000000

/-- The number of seconds in a day. -/
def secondsInDay : Nat := 86400

/-- A second of the day and the nanoseconds in it. -/
structure TimeOfDay where
  second : Nat
  nano : Nat
  second_lt : second < secondsInDay
  nano_lt : nano < 2 * nanosInSecond
  deriving DecidableEq

namespace TimeOfDay

def midnight : TimeOfDay := ⟨0, 0, by decide, by decide⟩

/-- The time with these parts, if there is one; second 60 is a leap second. -/
def of? (hour minute second nano : Nat) : Option TimeOfDay :=
  if h : hour < 24 ∧ minute < 60 ∧ second ≤ 60 ∧ nano < nanosInSecond then
    if h60 : second = 60 then
      some ⟨3600 * hour + 60 * minute + 59, nanosInSecond + nano,
        by simp only [secondsInDay]; omega, by omega⟩
    else
      some ⟨3600 * hour + 60 * minute + second, nano,
        by simp only [secondsInDay]; omega, by omega⟩
  else none

def hour (t : TimeOfDay) : Nat := t.second / 3600
def minute (t : TimeOfDay) : Nat := t.second / 60 % 60

/-- The second of the minute as it is shown: 60 in a leap second. -/
def secondOfMinute (t : TimeOfDay) : Nat := t.second % 60 + t.nano / nanosInSecond

/-- The nanoseconds of the second that is shown. -/
def fraction (t : TimeOfDay) : Nat := t.nano % nanosInSecond

/-- The order in the day. -/
def compare (a b : TimeOfDay) : Ordering :=
  (Ord.compare a.second b.second).then (Ord.compare a.nano b.nano)

/-- The time `seconds` later, around midnight if need be. Any step leaves a leap second: a
step forward from its start, a step back from its end. -/
def shift (t : TimeOfDay) (seconds : Int) : TimeOfDay :=
  if seconds = 0 then t
  else
    let leap := nanosInSecond ≤ t.nano
    let start : Int := if leap ∧ seconds < 0 then t.second + 1 else t.second
    ⟨((start + seconds) % secondsInDay).toNat, t.nano % nanosInSecond, by
      simp only [secondsInDay]; omega, by simp only [nanosInSecond]; omega⟩

end TimeOfDay

end DataGrid.Calendar
