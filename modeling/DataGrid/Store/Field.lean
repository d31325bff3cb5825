import DataGrid.Json.Writer
import DataGrid.Path
import DataGrid.Value.Reading

/-!
# Reading a field of a row

`readAs` reads a stored JSON value as a value of a kind. A text is read as a
filter's text would be, a decimal from the digits of the stored number, and what
cannot be read is `null`, so that comparisons and aggregates pass over it.
-/

namespace DataGrid

open Number

namespace JsonNumber

/-- A stored number as a value of a kind. An integral kind keeps a number that is no 64-bit
word as a binary number. -/
def readAs (n : JsonNumber) (kind : Kind) : Value :=
  match kind with
  | .byte | .short | .int | .long | .relatedCount =>
    match n.toInt64? with
    | some i => .int i
    | none => .float (.finite n.toFinite)
  | .decimal => (Kind.decimal.read? n.text).getD .null
  | .float | .double => .float (.finite n.toFinite)
  | .text | .enumeration => .text n.text
  | _ => .null

end JsonNumber

namespace Json

/-- A stored value as a value of a kind. -/
def readAs (json : Json) (kind : Kind) : Value :=
  match json with
  | .null => .null
  | .bool b =>
    match kind with
    | .bool => .bool b
    | .text | .enumeration => .text (if b then "true" else "false")
    | _ => .null
  | .number n => n.readAs kind
  | .string s => (kind.read? s).getD .null
  | .array _ | .object _ => .null

end Json

/-- The field of a row at a path, read as a value of a kind; a missing field is `null`. -/
def Record.read (row : Record) (path : Path) (kind : Kind) : Value :=
  match row.lookup? path.segments with
  | some json => json.readAs kind
  | none => .null

end DataGrid
