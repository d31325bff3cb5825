import DataGrid.Filter.Composition
import DataGrid.Grid.Totals

/-!
# Grids

A grid is a base query, columns and the settings that hold for every request. A
request gives its filter settings; `process` composes the predicate, computes the
totals, and fetches the rows in the order of the sorted column. It gives the grid
with its new totals and either a view or the error that ended the request.
-/

namespace DataGrid

/-- A grid over the rows of one entity. -/
structure Grid where
  context : Context
  columns : Columns
  paging : Paging := {}
  /-- The pattern of columns without one of their own. -/
  defaultFormat : Option String := none
  composeHook : Option ComposeHook := none
  totalsHook : Option TotalsHook := none

/-- What a request shows. -/
structure View where
  predicate : Option Predicate
  order : List OrderClause
  rows : List Record

/-- A total as it is shown. -/
structure RenderedTotal where
  column : String
  label : String
  text : String
  deriving DecidableEq, Repr

namespace Grid

/-- The order of the rows: the clauses of the sorted column. -/
def order (g : Grid) : List OrderClause :=
  match g.columns.sorted? with
  | none => []
  | some c =>
    match c.direction with
    | none => []
    | some d => c.orderers.clauses d

/-- The grid sorted by one column, or by none. -/
def sortBy (g : Grid) (column : String) (d : Option Direction) : Except GridError Grid :=
  (g.columns.sortBy column d).map fun cs => { g with columns := cs }

/-- One request: the grid with its new totals, and a view or an error. -/
def process (g : Grid) (settings : FilterSource) (executor : Executor) :
    Grid × Except GridError View :=
  match settings.compose g.composeHook g.context g.columns none with
  | .error e => (g, .error e)
  | .ok predicate =>
    match g.columns.computeTotals g.paging g.totalsHook g.context predicate executor with
    | (cs, .error e) => ({ g with columns := cs }, .error (.query e))
    | (cs, .ok ()) =>
      let g := { g with columns := cs }
      match executor.fetch ((g.context.filtered predicate).ordered g.order) with
      | .error e => (g, .error (.query e))
      | .ok rows => (g, .ok ⟨predicate, g.order, rows⟩)

/-- The pattern of a column's totals. -/
def formatFor (g : Grid) (c : ColumnState) : Option String := c.format <|> g.defaultFormat

/-- The labelled totals of a column in the order in which they are shown. -/
def labelledTotals (c : ColumnState) : List (String × Total) :=
  TotalSlot.all.filterMap (fun slot => (c.values.get slot).map (slot.name, ·))
    ++ c.values.calculations

/-- Every total that has a text, under its column's pattern. -/
def renderedTotals (g : Grid) : Except Crash (List RenderedTotal) :=
  let totals := g.columns.toList.flatMap fun c =>
    (labelledTotals c.toColumnState).map (c.toColumnState, ·)
  totals.filterMapM fun (c, label, total) => do
    return (← total.render (g.formatFor c)).map (⟨c.name, label, ·⟩)

end Grid

end DataGrid
