import DataGrid.Calendar.Moment
import DataGrid.Text.Digits

/-!
# Writing dates and times

The common text of a date is year, month and day at full width; a year outside
0 to 9999 has a sign. A fraction of a second is written with 3, 6 or 9 digits, the
fewest that lose nothing, and not at all when it is zero.
-/

namespace DataGrid.Calendar

open DataGrid.Text

/-- A year with at least four digits; outside 0 to 9999 it has a sign. -/
def yearChars (year : Int) : List Char :=
  if 0 ≤ year ∧ year ≤ 9999 then paddedDigits 4 year.toNat
  else (if year < 0 then '-' else '+') :: paddedDigits 4 year.natAbs

/-- A fraction of a second behind its point, with the fewest of 3, 6 and 9 digits; nothing for
zero. -/
def fractionChars (nanos : Nat) : List Char :=
  if nanos = 0 then []
  else if nanos % 1000000 = 0 then '.' :: paddedDigits 3 (nanos / 1000000)
  else if nanos % 1000 = 0 then '.' :: paddedDigits 6 (nanos / 1000)
  else '.' :: paddedDigits 9 nanos

def Date.chars (d : Date) : List Char :=
  yearChars d.year ++ '-' :: paddedDigits 2 d.month ++ '-' :: paddedDigits 2 d.day

/-- Hour, minute and second. -/
def TimeOfDay.clockChars (t : TimeOfDay) : List Char :=
  paddedDigits 2 t.hour ++ ':' :: paddedDigits 2 t.minute ++
    ':' :: paddedDigits 2 t.secondOfMinute

def TimeOfDay.chars (t : TimeOfDay) : List Char := t.clockChars ++ fractionChars t.fraction

/-- Date and time to the second. -/
def LocalDateTime.clockChars (m : LocalDateTime) : List Char :=
  m.date.chars ++ 'T' :: m.time.clockChars

/-- Date and time with the fraction of the second. -/
def LocalDateTime.chars (m : LocalDateTime) : List Char := m.date.chars ++ 'T' :: m.time.chars

/-- How much of an offset is written. -/
inductive OffsetStyle where
  | hours | minutes | minutesJoined | seconds
  deriving DecidableEq, Repr

/-- An offset with its sign. To the minute it is rounded half up. -/
def offsetChars (style : OffsetStyle) (offset : Int) : List Char :=
  let size := offset.natAbs
  let sign := if offset < 0 then '-' else '+'
  let two := paddedDigits 2
  match style with
  | .hours => sign :: two (size / 3600)
  | .minutes => sign :: two ((size + 30) / 3600) ++ ':' :: two ((size + 30) / 60 % 60)
  | .minutesJoined => sign :: two ((size + 30) / 3600) ++ two ((size + 30) / 60 % 60)
  | .seconds => sign :: two (size / 3600) ++ ':' :: two (size / 60 % 60) ++ ':' :: two (size % 60)

/-- Date, time and offset. -/
def OffsetDateTime.chars (m : OffsetDateTime) : List Char :=
  m.wall.chars ++ offsetChars .minutes m.offset

end DataGrid.Calendar
