import DataGrid.Number.Integer
import DataGrid.Text.Blank

/-!
# Filter operators

Each operator has an ordinal that never changes, and its decimal digits are the
code of the operator in a request. A code that is no number stands for the
operator `none`; a number without an operator is an error.
-/

namespace DataGrid

open Text Number

/-- A requested comparison of a column with a filter value. -/
inductive Operator where
  | none | equals | contains | startsWith | endsWith | greaterThan | lessThan
  | greaterThanOrEquals | lessThanOrEquals | condition | notEquals | isNull | isNotNull
  | isDuplicated | isNotDuplicated
  deriving DecidableEq, Repr, Inhabited

namespace Operator

/-- Every operator in the order of the ordinals. -/
def all : List Operator :=
  [none, equals, contains, startsWith, endsWith, greaterThan, lessThan, greaterThanOrEquals,
    lessThanOrEquals, condition, notEquals, isNull, isNotNull, isDuplicated, isNotDuplicated]

def ordinal : Operator → Nat
  | none => 0
  | equals => 1
  | contains => 2
  | startsWith => 3
  | endsWith => 4
  | greaterThan => 5
  | lessThan => 6
  | greaterThanOrEquals => 7
  | lessThanOrEquals => 8
  | condition => 9
  | notEquals => 10
  | isNull => 11
  | isNotNull => 12
  | isDuplicated => 13
  | isNotDuplicated => 14

/-- The name in a grid definition. -/
def name : Operator → String
  | none => "none"
  | equals => "equals"
  | contains => "contains"
  | startsWith => "starts_with"
  | endsWith => "ends_with"
  | greaterThan => "greater_than"
  | lessThan => "less_than"
  | greaterThanOrEquals => "greater_than_or_equals"
  | lessThanOrEquals => "less_than_or_equals"
  | condition => "condition"
  | notEquals => "not_equals"
  | isNull => "is_null"
  | isNotNull => "is_not_null"
  | isDuplicated => "is_duplicated"
  | isNotDuplicated => "is_not_duplicated"

/-- The name in an error message. -/
def label : Operator → String
  | none => "None"
  | equals => "Equals"
  | contains => "Contains"
  | startsWith => "StartsWith"
  | endsWith => "EndsWith"
  | greaterThan => "GreaterThan"
  | lessThan => "LessThan"
  | greaterThanOrEquals => "GreaterThanOrEquals"
  | lessThanOrEquals => "LessThanOrEquals"
  | condition => "Condition"
  | notEquals => "NotEquals"
  | isNull => "IsNull"
  | isNotNull => "IsNotNull"
  | isDuplicated => "IsDuplicated"
  | isNotDuplicated => "IsNotDuplicated"

/-- The decimal digits of the ordinal. -/
def code (o : Operator) : String := String.ofList (digitsOf o.ordinal)

/-- Whether the operator asks for equal values in other rows. -/
def isDuplicateCheck : Operator → Bool
  | isDuplicated | isNotDuplicated => true
  | _ => false

/-- The operator of an ordinal. -/
def ofOrdinal? (n : Nat) : Option Operator := all[n]?

/-- A text that names no operator. -/
structure Unknown where
  text : String
  deriving DecidableEq, Repr

/-- The operator of a code. The error keeps the code as it was given when the number is not
from 0 to 255, and the number otherwise. -/
def ofCode (code : String) : Except Unknown Operator :=
  match int64Of? (trim code.toList) with
  | .none => .ok none
  | some n =>
    let n := n.toInt
    if 0 ≤ n ∧ n < 256 then
      match ofOrdinal? n.toNat with
      | some o => .ok o
      | .none => .error ⟨String.ofList (integerText n)⟩
    else .error ⟨code⟩

/-- The operator of a name, in any case of its letters, or of a code. -/
def ofText (text : String) : Except Unknown Operator :=
  let s := trim text.toList
  match all.find? fun o => lowered s == o.name.toList with
  | some o => .ok o
  | .none =>
    match int64Of? s with
    | some _ => ofCode (String.ofList s)
    | .none => .error ⟨String.ofList s⟩

theorem mem_all (o : Operator) : o ∈ all := by cases o <;> decide

theorem ofOrdinal?_ordinal (o : Operator) : ofOrdinal? o.ordinal = some o := by
  cases o <;> rfl

end Operator

end DataGrid
