/-!
# Kinds of values

A kind says how a column's stored values and filter texts are read. Kinds fall
into families, and the family decides which totals a column may have.
-/

namespace DataGrid

/-- How a column's values are read. -/
inductive Kind where
  | byte | short | int | long | decimal | float | double
  | date | time | timestamp | instant | offsetTime | offsetDateTime | zonedDateTime | calendar
  | text | bool | enumeration | relatedCount
  deriving DecidableEq, Repr, Inhabited

/-- Kinds whose columns behave alike. -/
inductive Family where
  | numeric | temporal | text | boolean | enumeration | relatedCount
  deriving DecidableEq, Repr

namespace Kind

/-- Every kind, in a fixed order. -/
def all : List Kind :=
  [byte, short, int, long, decimal, float, double, date, time, timestamp, instant, offsetTime,
    offsetDateTime, zonedDateTime, calendar, text, bool, enumeration, relatedCount]

def family : Kind → Family
  | byte | short | int | long | decimal | float | double => .numeric
  | date | time | timestamp | instant | offsetTime | offsetDateTime | zonedDateTime | calendar =>
    .temporal
  | text => .text
  | bool => .boolean
  | enumeration => .enumeration
  | relatedCount => .relatedCount

def isNumeric (k : Kind) : Bool := k.family = .numeric
def isTemporal (k : Kind) : Bool := k.family = .temporal

/-- Whether the values of the kind are whole numbers. -/
def isIntegral : Kind → Bool
  | byte | short | int | long | relatedCount => true
  | _ => false

def name : Kind → String
  | byte => "byte"
  | short => "short"
  | int => "int"
  | long => "long"
  | decimal => "decimal"
  | float => "float"
  | double => "double"
  | date => "date"
  | time => "time"
  | timestamp => "timestamp"
  | instant => "instant"
  | offsetTime => "offset_time"
  | offsetDateTime => "offset_date_time"
  | zonedDateTime => "zoned_date_time"
  | calendar => "calendar"
  | text => "text"
  | bool => "bool"
  | enumeration => "enum"
  | relatedCount => "related_count"

/-- The kind of an exact name. -/
def ofName? (name : String) : Option Kind := all.find? (·.name = name)

theorem mem_all (k : Kind) : k ∈ all := by cases k <;> decide

theorem ofName?_name (k : Kind) : ofName? k.name = some k := by cases k <;> decide

end Kind

namespace Family

def name : Family → String
  | numeric => "numeric"
  | temporal => "temporal"
  | text => "text"
  | boolean => "boolean"
  | enumeration => "enumeration"
  | relatedCount => "related_count"

end Family

end DataGrid
