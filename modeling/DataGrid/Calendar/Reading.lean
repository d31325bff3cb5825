import DataGrid.Calendar.Layout
import DataGrid.Number.Integer

/-!
# Reading temporal values

One reader for each kind of temporal value. A reader tries its layouts in a fixed
order and takes the first that reads the whole text between its outer blanks.
Readers accept each other's texts where that has one meaning: a date is read from
a moment's text as the day on its clock, a moment from a date's text as midnight.
-/

namespace DataGrid.Calendar

open DataGrid.Text DataGrid.Number

/-- A date and a time, or a date alone for its midnight. -/
def readLocalDateTime (s : List Char) : Option LocalDateTime :=
  let s := trim s
  dateTimeOf? s <|> (dateOf? s).map fun date => ⟨date, .midnight⟩

/-- A moment with an offset. -/
def readOffsetDateTime (s : List Char) : Option OffsetDateTime := offsetDateTimeOf? (trim s)

/-- A date; a moment is read as the day on its own clock. -/
def readDate (s : List Char) : Option Date :=
  let s := trim s
  dateOf? s <|> (readLocalDateTime s).map (·.date) <|> (readOffsetDateTime s).map (·.wall.date)

/-- A time of day. -/
def readTime (s : List Char) : Option TimeOfDay := timeOf? (trim s)

/-- The instant that many milliseconds after 1970-01-01T00:00:00Z, on the clock of universal
time. -/
def momentOfMillis (millis : Int) : Option OffsetDateTime :=
  let moment := LocalDateTime.ofEpochSecond (millis / 1000) ((millis % 1000).toNat * 1000000) (by
    simp only [nanosInSecond]; omega)
  if moment.date.isReadable then some ⟨moment, 0⟩ else none

/-- An instant on the clock of universal time: a moment with an offset, a local date and time
read on that clock, or a count of milliseconds. -/
def readInstant (s : List Char) : Option OffsetDateTime :=
  let s := trim s
  (readOffsetDateTime s).map (·.toUniversal)
    <|> (readLocalDateTime s).map (⟨·, 0⟩)
    <|> (int64Of? s).bind fun millis => momentOfMillis millis.toInt

/-- The text before and from the last character that satisfies `p`. -/
def splitLast (p : Char → Bool) (s : List Char) : Option (List Char × List Char) :=
  let tail := s.reverse.takeWhile fun c => !p c
  match s.reverse.dropWhile fun c => !p c with
  | [] => none
  | c :: before => some (before.reverse, c :: tail.reverse)

/-- Hours and minutes behind a sign as seconds. Colons are dropped before the four digits are
counted. -/
def readOffsetSeconds : List Char → Option Int
  | [] => none
  | sign :: rest =>
    match rest.filter (· ≠ ':') with
    | [h₁, h₂, m₁, m₂] =>
      match naturalOf? [h₁, h₂], naturalOf? [m₁, m₂] with
      | some hours, some minutes =>
        if hours ≤ 18 ∧ minutes ≤ 59 then
          let seconds : Int := (hours * 3600 + minutes * 60 : Nat)
          if sign = '+' then some seconds else if sign = '-' then some (-seconds) else none
        else none
      | _, _ => none
    | _ => none

/-- A time of day with an offset, as the time of day of universal time. The offset starts at
the last sign, or else at the last `Z`. -/
def readOffsetTime (s : List Char) : Option TimeOfDay := do
  let s := trim s
  let (time, offset) ←
    splitLast (fun c => c = '+' || c = '-') s <|> splitLast (· = 'Z') s
  let time ← readTime time
  let seconds ← if offset = ['Z'] then some 0 else readOffsetSeconds offset
  return time.shift (-seconds)

/-- A moment with an offset; the name of a zone in brackets behind it is ignored. -/
def readZonedDateTime (s : List Char) : Option OffsetDateTime :=
  let s := trim s
  if '[' ∈ s ∧ s.getLast? = some ']' then readOffsetDateTime (s.takeWhile (· ≠ '['))
  else readOffsetDateTime s

/-- A moment with an offset, or a date for its midnight in universal time. -/
def readCalendar (s : List Char) : Option OffsetDateTime :=
  readOffsetDateTime s <|> (dateOf? (trim s)).map fun date => ⟨⟨date, .midnight⟩, 0⟩

end DataGrid.Calendar
