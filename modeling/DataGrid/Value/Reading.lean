import DataGrid.Calendar.Reading
import DataGrid.Kind
import DataGrid.Number.Binary64.Literal
import DataGrid.Value

/-!
# Reading values

`Kind.read?` reads a text as a value of a kind: a filter's text, or a text stored
in a row. Blanks around the text do not count, except for free text, which is
taken as it stands. A number out of the kind's range is not read.
-/

namespace DataGrid

open Number Calendar Text

namespace Kind

/-- A binary number that is finite. -/
def readDouble? (s : List Char) : Option Value :=
  ((Binary64.ofChars? s).filter (·.isFinite)).map Value.float

/-- A binary number that is finite also at 32 bits; it keeps its 64 bits. -/
def readFloat? (s : List Char) : Option Value :=
  match Numeral.ofChars? s with
  | some n => if n.isFinite32 then readDouble? s else none
  | none => none

/-- A truth value: a word in any case of its letters, or a binary digit. -/
def readBool? (s : List Char) : Option Value :=
  let word := lowered s
  if word = "true".toList ∨ word = ['1'] then some (.bool true)
  else if word = "false".toList ∨ word = ['0'] then some (.bool false)
  else none

/-- An integer that a word of `bits` bits can hold. -/
def readWord? (bits : Nat) (s : List Char) : Option Value :=
  (wordOf? bits s).map fun n => .int (Int64.ofInt n)

/-- The value of the kind that a text denotes. -/
def read? (kind : Kind) (raw : String) : Option Value :=
  let s := trim raw.toList
  match kind with
  | byte => readWord? 8 s
  | short => readWord? 16 s
  | int => readWord? 32 s
  | long | relatedCount => readWord? 64 s
  | decimal => (Decimal.ofChars? s).map .decimal
  | double => readDouble? s
  | float => readFloat? s
  | date => (readDate s).map .date
  | time => (readTime s).map .time
  | timestamp => (readLocalDateTime s).map .dateTime
  | instant => (readInstant s).map .zoned
  | offsetTime => (readOffsetTime s).map .time
  | offsetDateTime => (readOffsetDateTime s).map .zoned
  | zonedDateTime => (readZonedDateTime s).map .zoned
  | calendar => (readCalendar s).map .zoned
  | text => some (.text raw)
  | bool => readBool? s
  | enumeration => if s.isEmpty then none else some (.text (String.ofList s))

end Kind

end DataGrid
