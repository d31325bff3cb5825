import DataGrid.Calendar.Moment
import DataGrid.Number.Power
import DataGrid.Text.Blank
import DataGrid.Text.Digits
import DataGrid.Text.Take

/-!
# Layouts of dates and times

Each `take…` reader reads one part at the head of a text and gives the part and
what follows. Numbers may stand behind blanks and have one or two digits; years
have up to four digits, or any number of them behind a sign. A moment with an
offset has one fixed layout, in which every number has its full width.
-/

namespace DataGrid.Calendar

open DataGrid.Number DataGrid.Text

/-- A run of one to `width` digits. -/
def takeDigits (width : Nat) : Take Nat := fun s =>
  let (digits, rest) := spanDigits width s
  (naturalOf? digits).map (·, rest)

/-- A run of exactly two digits. -/
def takeTwoDigits : Take Nat
  | a :: b :: rest => (naturalOf? [a, b]).map (·, rest)
  | _ => none

/-- One or two digits behind any blanks. -/
def takeNumber : Take Nat := fun s => takeDigits 2 (trimStart s)

/-- A year behind any blanks. -/
def takeYear : Take Int := fun s =>
  match trimStart s with
  | '-' :: rest =>
    (naturalOf? (rest.takeWhile Char.isDigit)).map
      fun n => (-(n : Int), rest.dropWhile Char.isDigit)
  | '+' :: rest =>
    (naturalOf? (rest.takeWhile Char.isDigit)).map
      fun n => ((n : Int), rest.dropWhile Char.isDigit)
  | rest => (takeDigits 4 rest).map fun (n, rest) => ((n : Int), rest)

/-- Digits of a fraction as nanoseconds; those past the ninth are skipped. -/
def takeNanos : Take Nat := fun s =>
  let (digits, rest) := spanDigits 9 s
  (naturalOf? digits).map fun n => (n * tenTo (9 - digits.length), rest.dropWhile Char.isDigit)

/-- A point and a fraction, or nothing. -/
def takeFraction : Take Nat
  | '.' :: rest => takeNanos rest
  | s => some (0, s)

/-- A year, a month and a day, with `sep` between them. -/
def takeYearFirst (sep : Char) : Take Date := fun s => do
  let (year, s) ← takeYear s
  let s ← expect sep s
  let (month, s) ← takeNumber s
  let s ← expect sep s
  let (day, s) ← takeNumber s
  let date ← Date.of? year month day
  return (date, s)

/-- A day, a month and a year, with points between them. -/
def takeDayFirst : Take Date := fun s => do
  let (day, s) ← takeNumber s
  let s ← expect '.' s
  let (month, s) ← takeNumber s
  let s ← expect '.' s
  let (year, s) ← takeYear s
  let date ← Date.of? year month day
  return (date, s)

/-- Hour and minute. -/
def takeHourMinute : Take (Nat × Nat) := fun s => do
  let (hour, s) ← takeNumber s
  let s ← expect ':' s
  let (minute, s) ← takeNumber s
  return ((hour, minute), s)

/-- Hour, minute and second, and a fraction if there is one. -/
def takeFullTime : Take TimeOfDay := fun s => do
  let ((hour, minute), s) ← takeHourMinute s
  let s ← expect ':' s
  let (second, s) ← takeNumber s
  let (nano, s) ← takeFraction s
  let time ← TimeOfDay.of? hour minute second nano
  return (time, s)

/-- Hour and minute, at the full minute. -/
def takeShortTime : Take TimeOfDay := fun s => do
  let ((hour, minute), s) ← takeHourMinute s
  let time ← TimeOfDay.of? hour minute 0 0
  return (time, s)

/-- A date in one of the three layouts. -/
def dateOf? (s : List Char) : Option Date :=
  whole (takeYearFirst '-') s <|> whole (takeYearFirst '/') s <|> whole takeDayFirst s

/-- A time of day, to the second or to the minute. -/
def timeOf? (s : List Char) : Option TimeOfDay :=
  whole takeFullTime s <|> whole takeShortTime s

/-- A date and a time with a `T` or any blanks between them. -/
def dateTimeOf? (s : List Char) : Option LocalDateTime := do
  let (date, s) ← takeYearFirst '-' s
  let time ← (expect 'T' s).bind timeOf? <|> timeOf? s
  return ⟨date, time⟩

/-- Four digits. -/
def takeFourDigits : Take Nat
  | a :: b :: c :: d :: rest => (naturalOf? [a, b, c, d]).map (·, rest)
  | _ => none

/-- The letter or the one blank between the date and the time of a moment with offset. -/
def skipTimeMark : List Char → Option (List Char)
  | [] => none
  | c :: rest => if c = 'T' ∨ c = 't' ∨ c = ' ' then some rest else none

/-- Hours and minutes of an offset in seconds; there are at most 59 minutes. -/
def takeClockOffset : Take Int := fun s => do
  let (hours, s) ← takeTwoDigits s
  let s ← expect ':' s
  let (minutes, s) ← takeTwoDigits s
  if minutes < 60 ∧ hours < 24 then return ((hours * 3600 + minutes * 60 : Nat), s) else none

/-- The offset of a moment: `Z`, or a sign, hours and minutes. The sign may be the
mathematical minus. -/
def takeOffset : Take Int
  | [] => none
  | c :: rest =>
    if c = 'Z' ∨ c = 'z' then some (0, rest)
    else if c = '+' then takeClockOffset rest
    else if c = '-' ∨ c = '\u2212' then
      (takeClockOffset rest).map fun (seconds, rest) => (-seconds, rest)
    else none

/-- A date, a time and an offset, each number at its full width. -/
def offsetDateTimeOf? (s : List Char) : Option OffsetDateTime := do
  let (year, s) ← takeFourDigits s
  let s ← expect '-' s
  let (month, s) ← takeTwoDigits s
  let s ← expect '-' s
  let (day, s) ← takeTwoDigits s
  let s ← skipTimeMark s
  let (hour, s) ← takeTwoDigits s
  let s ← expect ':' s
  let (minute, s) ← takeTwoDigits s
  let s ← expect ':' s
  let (second, s) ← takeTwoDigits s
  let (nano, s) ← takeFraction s
  let offset ← whole takeOffset s
  let date ← Date.of? year month day
  let time ← TimeOfDay.of? hour minute second nano
  return ⟨⟨date, time⟩, offset⟩

end DataGrid.Calendar
