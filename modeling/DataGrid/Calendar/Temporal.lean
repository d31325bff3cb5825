import DataGrid.Calendar.Pattern

/-!
# Temporal values

The four shapes of a temporal value, their default text and their text under a
pattern. The default text of a local date and time stops at the second.
-/

namespace DataGrid.Calendar

/-- A date, a time of day, or a moment with or without an offset. -/
inductive Temporal where
  | date (d : Date)
  | time (t : TimeOfDay)
  | local (m : LocalDateTime)
  | zoned (m : OffsetDateTime)
  deriving DecidableEq

namespace Temporal

/-- The default text. -/
def text : Temporal → String
  | .date d => String.ofList d.chars
  | .time t => String.ofList t.chars
  | .local m => String.ofList m.clockChars
  | .zoned m => String.ofList m.chars

/-- The parts that a pattern can ask for. -/
def parts : Temporal → Pattern.Parts
  | .date d => { date := some d }
  | .time t => { time := some t }
  | .local m => { date := some m.date, time := some m.time }
  | .zoned m =>
    { date := some m.wall.date, time := some m.wall.time, offset := some m.offset }

/-- The text under a pattern, if the pattern applies. -/
def format? (t : Temporal) (pattern : String) : Option String :=
  (Pattern.format? t.parts pattern.toList).map String.ofList

end Temporal

end DataGrid.Calendar
