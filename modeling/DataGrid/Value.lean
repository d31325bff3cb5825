import DataGrid.Calendar.Temporal
import DataGrid.Number.Binary64.Text
import DataGrid.Number.Decimal.Binary64
import DataGrid.Number.Decimal.Text
import DataGrid.Text.Quoted

/-!
# Values

A value is what a filter compares and an aggregate computes with. Values of one
type are ordered within it. A decimal is compared with any other number as a
decimal, and integers with binary numbers as binary numbers. All other pairs, and
every pair with `null`, are not comparable.
-/

namespace DataGrid

open Number Calendar Text

/-- A dynamically typed scalar. -/
inductive Value where
  | null
  | bool (b : Bool)
  | int (n : Int64)
  | float (x : Binary64)
  | decimal (d : Decimal)
  | text (s : String)
  | date (d : Date)
  | time (t : TimeOfDay)
  | dateTime (m : LocalDateTime)
  | zoned (m : OffsetDateTime)
  deriving DecidableEq

namespace Value

def isNull : Value → Bool
  | null => true
  | _ => false

/-- A number as a binary number. -/
def asBinary64? : Value → Option Binary64
  | int n => some (Binary64.ofInt n.toInt)
  | float x => some x
  | decimal d => some d.toBinary64
  | _ => none

/-- A number as a decimal, if it has a decimal form. -/
def asDecimal? : Value → Option Decimal
  | int n => some (Decimal.ofInt64 n)
  | float x => Decimal.ofBinary64? x
  | decimal d => some d
  | _ => none

def asText? : Value → Option String
  | text s => some s
  | _ => none

def asTemporal? : Value → Option Temporal
  | date d => some (.date d)
  | time t => some (.time t)
  | dateTime m => some (.local m)
  | zoned m => some (.zoned m)
  | _ => none

/-- The order as decimals, if both numbers have a decimal form. -/
def compareDecimals? (a b : Value) : Option Ordering := do
  return (← a.asDecimal?).compare (← b.asDecimal?)

/-- The order as binary numbers. -/
def compareBinary? (a b : Value) : Option Ordering := do
  (← a.asBinary64?).compare? (← b.asBinary64?)

/-- How two values compare; none if they are not comparable. -/
def compare? : Value → Value → Option Ordering
  | bool a, bool b => some (Ord.compare a b)
  | int a, int b => some (Ord.compare a.toInt b.toInt)
  | decimal a, int b => compareDecimals? (decimal a) (int b)
  | decimal a, float b => compareDecimals? (decimal a) (float b)
  | decimal a, decimal b => some (a.compare b)
  | int a, decimal b => compareDecimals? (int a) (decimal b)
  | float a, decimal b => compareDecimals? (float a) (decimal b)
  | int a, float b => compareBinary? (int a) (float b)
  | float a, int b => compareBinary? (float a) (int b)
  | float a, float b => a.compare? b
  | text a, text b => some (Ord.compare a b)
  | date a, date b => some (a.compare b)
  | time a, time b => some (a.compare b)
  | dateTime a, dateTime b => some (a.compare b)
  | zoned a, zoned b => some (a.compare b)
  | _, _ => none

/-- Whether two values compare as equal; nothing equals `null`. -/
def sqlEq (a b : Value) : Bool := a.compare? b == some .eq

/-- The literal of the value in a rendered query. -/
def render : Value → String
  | null => "NULL"
  | bool b => if b then "true" else "false"
  | int n => String.ofList (integerText n.toInt)
  | float x => x.text
  | decimal d => d.text
  | text s => quoted s
  | date d => s!"DATE '{(Temporal.date d).text}'"
  | time t => s!"TIME '{(Temporal.time t).text}'"
  | dateTime m => s!"TIMESTAMP '{String.ofList m.chars}'"
  | zoned m => s!"TIMESTAMP '{(Temporal.zoned m).text}'"

end Value

end DataGrid
