import DataGrid.Columns
import DataGrid.Filter.Settings
import DataGrid.Filter.Strategy

/-!
# Composing the filters of a request

The predicate of a request is the conjunction of the predicates of the effective
options of all columns that can be filtered, in the order of the columns and then
of the options. A hook replaces the whole composition.
-/

namespace DataGrid

/-- Replaces the composition of a request's predicate. -/
abbrev ComposeHook := Option Predicate → Option Predicate

namespace FilterSource

/-- The options that count for a column: its initial filter while that applies, and the
request's options otherwise. -/
def effectiveOptions (s : FilterSource) (c : ColumnState) : List FilterOption :=
  if s.isInitial c then c.initialFilter.toList else s.optionsFor c.name

/-- A predicate and the predicates of the options of one column. -/
def addOptions (ctx : Context) (strategy : Strategy) (c : ColumnState) :
    Option Predicate → List FilterOption → Except GridError (Option Predicate)
  | acc, [] => .ok acc
  | acc, o :: os =>
    match strategy.apply ctx c o with
    | .error e => .error e
    | .ok p => addOptions ctx strategy c (Predicate.andOption acc p) os

/-- A predicate and the predicates of the effective options of columns. -/
def addColumns (s : FilterSource) (ctx : Context) :
    Option Predicate → List Column → Except GridError (Option Predicate)
  | acc, [] => .ok acc
  | acc, c :: cs =>
    match c.filterEnabled, c.kind.strategy? with
    | true, some strategy =>
      match addOptions ctx strategy c.toColumnState acc (s.effectiveOptions c.toColumnState) with
      | .error e => .error e
      | .ok acc => addColumns s ctx acc cs
    | _, _ => addColumns s ctx acc cs

/-- The predicate of a request, beginning with `start`. -/
def compose (s : FilterSource) (hook : Option ComposeHook) (ctx : Context) (cs : Columns)
    (start : Option Predicate) : Except GridError (Option Predicate) :=
  match hook with
  | some hook => .ok (hook start)
  | none => addColumns s ctx start cs.toList

end FilterSource

end DataGrid
