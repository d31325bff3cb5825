import DataGrid.Kind
import DataGrid.Path
import DataGrid.Value

/-!
# Predicates

A predicate is a condition on one row: a comparison of a field with a value, a
match of a text field, a count of related rows compared with a number, or a
conjunction. `and` keeps a conjunction flat at its top, and `conjuncts` lists the
conditions that a nested conjunction stands for. `render` writes a predicate in
the manner of SQL; a text in it cannot leave its literal.
-/

namespace DataGrid

open Text Number

/-- A comparison of two values. -/
inductive Comparison where
  | equal | notEqual | lessThan | lessOrEqual | greaterThan | greaterOrEqual
  deriving DecidableEq, Repr

namespace Comparison

/-- Whether the comparison holds for an ordering; it never does for values that are not
comparable. -/
def holds : Comparison → Option Ordering → Bool
  | _, none => false
  | equal, some o => o == .eq
  | notEqual, some o => o != .eq
  | lessThan, some o => o == .lt
  | lessOrEqual, some o => o != .gt
  | greaterThan, some o => o == .gt
  | greaterOrEqual, some o => o != .lt

def symbol : Comparison → String
  | equal => "="
  | notEqual => "<>"
  | lessThan => "<"
  | lessOrEqual => "<="
  | greaterThan => ">"
  | greaterOrEqual => ">="

end Comparison

/-- Where a pattern has to stand in a text. -/
inductive TextMatch where
  | contains | startsWith | endsWith
  deriving DecidableEq, Repr

namespace TextMatch

/-- Whether `needle` stands anywhere in a text. -/
def isInfix (needle : List Char) : List Char → Bool
  | [] => needle.isEmpty
  | c :: rest => needle.isPrefixOf (c :: rest) || isInfix needle rest

/-- Whether a pattern stands in a text where the match asks for it. -/
def holds (m : TextMatch) (hay needle : String) : Bool :=
  match m with
  | contains => isInfix needle.toList hay.toList
  | startsWith => needle.toList.isPrefixOf hay.toList
  | endsWith => needle.toList.isSuffixOf hay.toList

/-- The literal of a pattern, with a wildcard at each end that is open. -/
def literal (m : TextMatch) (needle : String) : String :=
  String.ofList <| match m with
    | contains => quotedBetween ['%'] ['%'] needle.toList
    | startsWith => quotedBetween [] ['%'] needle.toList
    | endsWith => quotedBetween ['%'] [] needle.toList

end TextMatch

mutual

/-- A condition on one row. -/
inductive Predicate where
  /-- The field, read as a value of the kind, compared with a value. -/
  | compare (path : Path) (kind : Kind) (op : Comparison) (value : Value)
  /-- The text in the field matched with a pattern. -/
  | matches (path : Path) (op : TextMatch) (pattern : String)
  /-- The number of correlated rows compared with a number. -/
  | count (counted : CorrelatedCount) (op : Comparison) (bound : Int64)
  /-- All of the parts. -/
  | all (parts : List Predicate)

/-- A count of the rows of `entity` that satisfy `filter` and agree with the outer row: in each
pair the field of the counted row comes first and that of the outer row second. -/
inductive CorrelatedCount where
  | mk (entity : String) (filter : Option Predicate) (correlations : List (Path × Path))

end

namespace Predicate

/-- The parts of a conjunction at the top, or the predicate alone. -/
def parts : Predicate → List Predicate
  | all parts => parts
  | p => [p]

/-- The conjunction of two predicates, flat at its top. -/
def and (p q : Predicate) : Predicate := all (p.parts ++ q.parts)

/-- The conjunction of the predicates that are there. -/
def andOption : Option Predicate → Option Predicate → Option Predicate
  | some p, some q => some (p.and q)
  | some p, none => some p
  | none, q => q

/-- The conjunction of any number of predicates, if there are any. -/
def ofList? (ps : List Predicate) : Option Predicate :=
  ps.foldl (fun acc p => andOption acc (some p)) none

mutual

/-- The conditions that the predicate stands for, without conjunctions. -/
def conjuncts : Predicate → List Predicate
  | .all parts => conjunctsOfAll parts
  | .compare path kind op value => [.compare path kind op value]
  | .matches path op pattern => [.matches path op pattern]
  | .count counted op bound => [.count counted op bound]

/-- The conditions of all parts of a conjunction. -/
def conjunctsOfAll : List Predicate → List Predicate
  | [] => []
  | p :: ps => conjuncts p ++ conjunctsOfAll ps

end

mutual

/-- The text of a predicate. -/
def render : Predicate → String
  | .compare path _ op value => s!"{path.render} {op.symbol} {value.render}"
  | .matches path op pattern => s!"{path.render} LIKE {op.literal pattern}"
  | .count counted op bound =>
    s!"{renderCount counted} {op.symbol} {String.ofList (integerText bound.toInt)}"
  | .all parts => " AND ".intercalate (renderParts parts)

/-- The texts of the parts of a conjunction; a conjunction inside stands in brackets. -/
def renderParts : List Predicate → List String
  | [] => []
  | .all parts :: ps => ("(" ++ render (.all parts) ++ ")") :: renderParts ps
  | p :: ps => render p :: renderParts ps

/-- The conditions of a count before its correlations. -/
def renderFilter : Option Predicate → List String
  | none => []
  | some p => [render p]

/-- The text of a correlated count. -/
def renderCount : CorrelatedCount → String
  | .mk entity filter correlations =>
    let pairs := correlations.map fun (inner, outer) => s!"sub.{inner.render} = {outer.render}"
    let conditions := " AND ".intercalate (renderFilter filter ++ pairs)
    s!"(SELECT COUNT(*) FROM {entity} AS sub WHERE {conditions})"

end

end Predicate

end DataGrid
