import DataGrid.Columns

/-!
# The totals of a request

Every aggregate runs over the request's filtered query. `support` says which
aggregates a column can have: all four for numbers and counts of related rows, the
extremes for temporal values and texts, none for the rest and for columns whose
expression is no path. Flags outside that are switched off, so that the flags
report what was computed. Calculations run after all aggregates, in the order of
the columns, and each sees the results of those before it.

Old totals are dropped first, also when the pass is skipped, replaced by a hook or
ended by an error.
-/

namespace DataGrid

open Text

/-- Whether the rows are shown page by page or loaded as the view scrolls. -/
inductive PagingKind where
  | standard | virtualization
  deriving DecidableEq, Repr, Inhabited

namespace PagingKind

def name : PagingKind → String
  | standard => "standard"
  | virtualization => "virtualization"

/-- The kind of an exact name. -/
def ofName? (name : String) : Option PagingKind :=
  if name = "standard" then some standard
  else if name = "virtualization" then some virtualization
  else none

/-- A text that names no kind, without its outer blanks and in lower case. -/
structure Unknown where
  text : String
  deriving DecidableEq, Repr

def Unknown.message (e : Unknown) : String := s!"Unknown paging type: {e.text}"

/-- The kind of a name in any case, with blanks around it. -/
def ofText (text : String) : Except Unknown PagingKind :=
  let name := String.ofList (lowered (trim text.toList))
  match ofName? name with
  | some k => .ok k
  | none => .error ⟨name⟩

end PagingKind

/-- How a grid is paged. -/
structure Paging where
  kind : PagingKind := .standard
  noTotals : Bool := false
  deriving DecidableEq, Repr, Inhabited

/-- Whether requests compute no totals. -/
def Paging.skipsTotals (p : Paging) : Bool := p.kind = .virtualization && p.noTotals

/-- Replaces the totals of a request. -/
abbrev TotalsHook := Option Predicate → Columns → Columns

/-- What a column's aggregates are taken from, and which it can have. -/
structure Support where
  projection : Projection
  slots : List (TotalSlot × Aggregate)

namespace Support

/-- All four aggregates. -/
def numeric (p : Projection) : Support :=
  ⟨p, [(.sum, .sum), (.average, .average), (.max, .max), (.min, .min)]⟩

/-- The two extremes. -/
def extremes (p : Projection) : Support := ⟨p, [(.max, .greatest), (.min, .least)]⟩

end Support

/-- Whether an expression names a count of related rows. -/
def isCountExpression (expression : String) : Bool :=
  ".count".toList.isSuffixOf expression.toList

/-- The aggregates that a column can have, if any. -/
def ColumnState.support? (c : ColumnState) : Option Support := do
  let expression ← c.expression
  match c.kind.family with
  | .numeric => return .numeric (.field (← Path.parse? expression) c.kind)
  | .temporal | .text => return .extremes (.field (← Path.parse? expression) c.kind)
  | .relatedCount =>
    if isCountExpression expression then
      return .numeric (.count (← (← c.relation).count?))
    else none
  | .boolean | .enumeration => none

namespace Column

/-- The column with the totals of its enabled slots computed one after the other. An error ends
the work and leaves what was computed before. -/
def computeSlots (executor : Executor) (filtered : Query) (projection : Projection) :
    List (TotalSlot × Aggregate) → Column → Column × Except QueryError Unit
  | [], c => (c, .ok ())
  | (slot, aggregate) :: rest, c =>
    if c.flags.get slot then
      match executor.scalar ⟨filtered, projection, aggregate⟩ with
      | .error e => (c, .error e)
      | .ok v => computeSlots executor filtered projection rest
          (c.setValue slot (Total.ofResult v))
    else computeSlots executor filtered projection rest c

/-- The column with its aggregates computed and the flags it cannot have switched off. -/
def computeTotals (executor : Executor) (filtered : Query) (c : Column) :
    Column × Except QueryError Unit :=
  match c.support? with
  | none => (c.disableAggregates, .ok ())
  | some support =>
    computeSlots executor filtered support.projection support.slots
      (c.restrictFlags (support.slots.map (·.1)))

/-- The aggregates of columns one after the other. An error leaves the columns behind it as they
are. -/
def computeAll (executor : Executor) (filtered : Query) :
    List Column → List Column × Except QueryError Unit
  | [] => ([], .ok ())
  | c :: cs =>
    match c.computeTotals executor filtered with
    | (c, .error e) => (c :: cs, .error e)
    | (c, .ok ()) =>
      let (cs, result) := computeAll executor filtered cs
      (c :: cs, result)

end Column

namespace Columns

/-- The columns with the result of one calculation of a column appended. A result without a
total form is dropped. -/
def calculate (cs : Columns) (column : String) (k : Calculation) : Columns :=
  match Total.ofValue? (k.result cs.states) with
  | some total => cs.modify column (·.pushCalculation k.name total)
  | none => cs

/-- All calculations with the names of their columns, in the order in which they run. -/
def calculations (cs : Columns) : List (String × Calculation) :=
  cs.toList.flatMap fun c => c.calculations.map (c.name, ·)

/-- The columns with all calculations run. -/
def calculateAll (cs : Columns) : Columns :=
  cs.calculations.foldl (fun cs (column, k) => cs.calculate column k) cs

/-- The columns with the totals of a request under its predicate. -/
def computeTotals (cs : Columns) (paging : Paging) (hook : Option TotalsHook) (ctx : Context)
    (predicate : Option Predicate) (executor : Executor) : Columns × Except QueryError Unit :=
  let cs := cs.clearTotals
  if paging.skipsTotals then (cs, .ok ())
  else match hook with
    | some hook => (hook predicate cs, .ok ())
    | none =>
      match Column.computeAll executor (ctx.filtered predicate) cs.toList with
      | (cs, .error e) => (⟨cs⟩, .error e)
      | (cs, .ok ()) => (Columns.calculateAll ⟨cs⟩, .ok ())

end Columns

end DataGrid
