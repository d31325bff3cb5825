import DataGrid.Query.Query
import DataGrid.Value

/-!
# Aggregates of values

`Aggregate.apply` computes an aggregate of the values that are not null. Sums keep
three running totals: an exact one of 64-bit integers, an exact one of decimals,
and one of binary numbers. A total that leaves its range is given up for good, and
the answer is the first of the three that is still there and suits the types seen.
-/

namespace DataGrid

open Number

/-- A value that no sum can take. -/
structure NotNumeric where
  aggregate : Aggregate
  value : Value

/-- The running totals of a sum. -/
structure Totals where
  ints : Option Int64 := some 0
  decimals : Option Decimal := some .zero
  floats : Binary64 := .zero
  sawFloat : Bool := false
  sawDecimal : Bool := false

namespace Totals

/-- The decimal total with one more value; none once either has no decimal form. -/
def addDecimal (t : Totals) (v : Value) : Option Decimal := do
  (← t.decimals).sum? (← v.asDecimal?)

/-- The totals with one more value, if it is a number. -/
def add? (t : Totals) (v : Value) : Option Totals :=
  match v with
  | .int n => some { t with
      ints := t.ints.bind (checkedAdd · n)
      floats := t.floats.add (Binary64.ofInt n.toInt)
      decimals := t.addDecimal v }
  | .float x => some { t with
      floats := t.floats.add x
      sawFloat := true
      decimals := t.addDecimal v }
  | .decimal d => some { t with
      floats := t.floats.add d.toBinary64
      sawDecimal := true
      decimals := t.addDecimal v }
  | _ => none

/-- The totals of a list of values, or the first value that is no number. -/
def ofValues (aggregate : Aggregate) : Totals → List Value → Except NotNumeric Totals
  | t, [] => .ok t
  | t, v :: vs =>
    match t.add? v with
    | some t => ofValues aggregate t vs
    | none => .error ⟨aggregate, v⟩

/-- The sum: a decimal if a decimal was seen, a binary number if one was, and else an integer,
which widens to a decimal. -/
def sum (t : Totals) : Value :=
  if t.sawDecimal then (t.decimals.map Value.decimal).getD (.float t.floats)
  else if t.sawFloat then .float t.floats
  else match t.ints, t.decimals with
    | some n, _ => .int n
    | none, some d => .decimal d
    | none, none => .float t.floats

/-- The mean of `count` values: a decimal if a decimal was seen, and else a binary number. -/
def average (t : Totals) (count : Nat) : Value :=
  let binary : Value := .float (t.floats.div (Binary64.ofInt count))
  if t.sawDecimal then ((t.decimals.bind (·.quotient? count)).map Value.decimal).getD binary
  else binary

end Totals

/-- The first value that no other one beats, where a value is beaten by one that compares to
it as `wins`. -/
def extreme (wins : Ordering) (best : Value) : List Value → Value
  | [] => best
  | v :: vs => extreme wins (if v.compare? best = some wins then v else best) vs

/-- An aggregate of values that are not null. Over no values it is null, except for a count. -/
def Aggregate.apply (a : Aggregate) (values : List Value) : Except NotNumeric Value :=
  match a, values with
  | .count, _ => .ok (.int (wordOfCount values.length))
  | _, [] => .ok .null
  | .sum, _ => (Totals.ofValues a {} values).map Totals.sum
  | .average, _ => (Totals.ofValues a {} values).map (·.average values.length)
  | .max, v :: vs | .greatest, v :: vs => .ok (extreme .gt v vs)
  | .min, v :: vs | .least, v :: vs => .ok (extreme .lt v vs)

end DataGrid
