import DataGrid.Column
import DataGrid.Error
import DataGrid.Value.Reading

/-!
# From a filter option to a predicate

Each kind but the count of related rows has a list of legal operators. An option
is turned into a predicate in three steps: an operator that is not legal becomes
`equals`, the text is read as a value of the kind, and the predicate is built. A
text that cannot be read gives no constraint, except to a check for duplicates,
which needs no value.
-/

namespace DataGrid

namespace Operator

/-- Operators of values with an order. -/
def ordered : List Operator :=
  [equals, notEquals, lessThan, lessThanOrEquals, greaterThan, greaterThanOrEquals, isDuplicated,
    isNotDuplicated]

/-- Operators of free text. -/
def textual : List Operator := ordered ++ [contains, startsWith, endsWith]

/-- Operators of values that are only equal or not. -/
def equality : List Operator := [equals, notEquals]

end Operator

namespace Kind

/-- The legal operators of a kind; none for a kind that cannot be filtered. -/
def legalOperators? (k : Kind) : Option (List Operator) :=
  match k.family with
  | .numeric | .temporal => some Operator.ordered
  | .text => some Operator.textual
  | .boolean | .enumeration => some Operator.equality
  | .relatedCount => none

end Kind

/-- How the options of a column of one kind become predicates. -/
structure Strategy where
  kind : Kind
  legal : List Operator
  deriving DecidableEq, Repr

/-- The strategy of a kind. -/
def Kind.strategy? (k : Kind) : Option Strategy := k.legalOperators?.map (⟨k, ·⟩)

namespace Strategy

/-- The operator itself if it is legal, and `equals` if not. -/
def validOperator (s : Strategy) (o : Operator) : Operator :=
  if o ∈ s.legal then o else .equals

/-- The comparison that an operator asks for. -/
def comparison? : Operator → Option Comparison
  | .equals => some .equal
  | .notEquals => some .notEqual
  | .lessThan => some .lessThan
  | .lessThanOrEquals => some .lessOrEqual
  | .greaterThan => some .greaterThan
  | .greaterThanOrEquals => some .greaterOrEqual
  | _ => none

/-- The text match that an operator asks for. -/
def textMatch? : Operator → Option TextMatch
  | .contains => some .contains
  | .startsWith => some .startsWith
  | .endsWith => some .endsWith
  | _ => none

/-- The predicate that rows satisfy whose value at `path` occurs in another row of the base
query, or in no other. -/
def duplicatePredicate (ctx : Context) (path : Path) (duplicated : Bool) : Predicate :=
  .count (ctx.countSameValue path) (if duplicated then .greaterThan else .lessOrEqual) 1

/-- The predicate of an operator and a value on a path. -/
def predicateOn (s : Strategy) (ctx : Context) (path : Path) (operator : Operator)
    (value : Option Value) : Except GridError Predicate :=
  match operator, value with
  | .isDuplicated, _ => .ok (duplicatePredicate ctx path true)
  | .isNotDuplicated, _ => .ok (duplicatePredicate ctx path false)
  | operator, some v =>
    match comparison? operator, textMatch? operator, v with
    | some op, _, v => .ok (.compare path s.kind op v)
    | none, some m, .text t => .ok (.matches path m t)
    | _, _, _ => .error (.illegalOperator operator s.kind)
  | operator, none => .error (.illegalOperator operator s.kind)

/-- The predicate of an operator and a value that has been read, if it could be. There is none
for a value that could not be read and for a column without a path. -/
def build (s : Strategy) (ctx : Context) (column : ColumnState) (value : Option Value)
    (operator : Operator) : Except GridError (Option Predicate) :=
  if operator ∉ s.legal then .error (.illegalOperator operator s.kind)
  else if value.isNone ∧ !operator.isDuplicateCheck then .ok none
  else match column.expression.bind Path.parse? with
    | none => .ok none
    | some path => (s.predicateOn ctx path operator value).map some

theorem build_eq {s : Strategy} {operator : Operator} (hlegal : operator ∈ s.legal)
    {column : ColumnState} {path : Path} (hpath : column.expression.bind Path.parse? = some path)
    {value : Option Value} (hvalue : value.isSome ∨ operator.isDuplicateCheck) (ctx : Context) :
    s.build ctx column value operator = (s.predicateOn ctx path operator value).map some := by
  have hread : ¬ (value.isNone = true ∧ (!operator.isDuplicateCheck) = true) := by
    rintro ⟨hnone, hcheck⟩
    rcases hvalue with hsome | hduplicate
    · rw [Option.isNone_iff_eq_none.1 hnone] at hsome
      cases hsome
    · rw [hduplicate] at hcheck
      cases hcheck
  unfold build
  rw [if_neg (not_not_intro hlegal), if_neg hread, hpath]

/-- The predicate of a filter option. -/
def apply (s : Strategy) (ctx : Context) (column : ColumnState) (o : FilterOption) :
    Except GridError (Option Predicate) :=
  s.build ctx column (s.kind.read? o.value) (s.validOperator o.operator)

end Strategy

end DataGrid
