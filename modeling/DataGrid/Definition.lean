import DataGrid.Config
import DataGrid.Grid

/-!
# Grid definitions

A definition describes a grid in TOML: its entity and its columns. `build` makes
the grid and fills what a column leaves open from the settings. It fails for a
blank entity, and otherwise at the first column without a name, with an unknown
operator, or with a name that is taken.
-/

namespace DataGrid

open Text
open Document (Dialect components? text? boolean? listOf?)

/-- The filter of a column that applies until a request says otherwise; the operator is a name
or a code. -/
structure InitialFilter where
  operator : String
  value : String
  deriving DecidableEq, Repr

/-- A tie-breaker; without a direction it is ascending. -/
structure TieBreaker where
  expression : String
  direction : Option Direction := none
  deriving DecidableEq, Repr

/-- A column of a definition. -/
structure ColumnDefinition where
  name : Option String := none
  title : Option String := none
  expression : Option String := none
  kind : Kind
  filterable : Option Bool := none
  initialFilter : Option InitialFilter := none
  sortable : Option Bool := none
  sortMode : Option SortMode := none
  initialDirection : Option Direction := none
  thenBy : List TieBreaker := []
  sum : Bool := false
  average : Bool := false
  max : Bool := false
  min : Bool := false
  format : Option String := none
  relation : Option Relation := none
  hidden : Bool := false
  deriving DecidableEq, Repr

/-- A grid with its columns. -/
structure Definition where
  entity : String
  columns : List ColumnDefinition := []
  deriving DecidableEq, Repr

namespace InitialFilter

def ofDocument? (d : Dialect) (doc : Document) : Option InitialFilter := do
  let parts ← components? d ["operator", "value"] doc
  return {
    operator := ← parts.required "operator" text?
    value := ← parts.required "value" text? }

end InitialFilter

namespace TieBreaker

def ofDocument? (d : Dialect) (doc : Document) : Option TieBreaker := do
  let parts ← components? d ["expression", "direction"] doc
  return {
    expression := ← parts.required "expression" text?
    direction := ← parts.optional "direction" (Direction.ofDocument? d) }

end TieBreaker

namespace ColumnDefinition

/-- The names of the parts in their order. -/
def partNames : List String :=
  ["name", "title", "expression", "kind", "filterable", "initial_filter", "sortable", "sort_mode",
    "initial_direction", "then_by", "sum", "average", "max", "min", "format", "related", "hidden"]

def ofDocument? (d : Dialect) (doc : Document) : Option ColumnDefinition := do
  let parts ← components? d partNames doc
  return {
    name := ← parts.optional "name" text?
    title := ← parts.optional "title" text?
    expression := ← parts.optional "expression" text?
    kind := ← parts.required "kind" (Kind.ofDocument? d)
    filterable := ← parts.optional "filterable" boolean?
    initialFilter := ← parts.optional "initial_filter" (InitialFilter.ofDocument? d)
    sortable := ← parts.optional "sortable" boolean?
    sortMode := ← parts.optional "sort_mode" (SortMode.ofDocument? d)
    initialDirection := ← parts.optional "initial_direction" (Direction.ofDocument? d)
    thenBy := ← parts.defaulted "then_by" (listOf? (TieBreaker.ofDocument? d)) []
    sum := ← parts.defaulted "sum" boolean? false
    average := ← parts.defaulted "average" boolean? false
    max := ← parts.defaulted "max" boolean? false
    min := ← parts.defaulted "min" boolean? false
    format := ← parts.optional "format" text?
    relation := ← parts.optional "related" (Relation.ofDocument? d)
    hidden := ← parts.defaulted "hidden" boolean? false }

/-- The name of the column: its own, or else its expression. -/
def effectiveName? (c : ColumnDefinition) : Option String := c.name <|> c.expression

/-- The operator and the value of the initial filter, if there is one. -/
def initialOption? (c : ColumnDefinition) : Except GridError (Option (Operator × String)) :=
  match c.initialFilter with
  | none => .ok none
  | some f =>
    match Operator.ofText f.operator with
    | .ok o => .ok (some (o, f.value))
    | .error e => .error (.ofUnknownOperator e)

/-- The column with its tie-breakers. -/
def addTieBreakers (ties : List TieBreaker) (c : Column) : Column :=
  ties.foldl (fun c t => c.thenSortBy t.expression (t.direction.getD .ascending)) c

/-- The column under a name and with an initial filter. -/
def assemble (c : ColumnDefinition) (defaults : GridDefaults) (name : String)
    (initial : Option (Operator × String)) : Column :=
  let column := (Column.named name c.kind).withHidden c.hidden
  let column := c.expression.elim column column.withExpression
  let column := c.title.elim column column.withTitle
  let column := c.format.elim column column.withFormat
  let column := c.relation.elim column column.withRelation
  let column := initial.elim column fun (o, value) => column.withInitialFilter o value
  let column := c.initialDirection.elim column column.withInitialDirection
  let column := addTieBreakers c.thenBy column
  let column := column.enableFilter (c.filterable.getD defaults.filterable)
  let mode := c.sortMode.getD defaults.sortMode
  let column := c.sortable.elim (column.defaultSort defaults.sortable mode)
    (column.enableSort · mode)
  (((column.setFlag .sum c.sum).setFlag .average c.average).setFlag .max c.max).setFlag .min c.min

/-- The column of a definition. -/
def build (c : ColumnDefinition) (defaults : GridDefaults) : Except GridError Column :=
  match c.effectiveName? with
  | none => .error (.definition .namelessColumn)
  | some name => c.initialOption?.map (c.assemble defaults name)

end ColumnDefinition

namespace Definition

/-- The definition of a document. -/
def ofDocument? (d : Dialect) (doc : Document) : Option Definition := do
  let parts ← components? d ["entity", "columns"] doc
  return {
    entity := ← parts.required "entity" text?
    columns := ← parts.defaulted "columns" (listOf? (ColumnDefinition.ofDocument? d)) [] }

/-- The definition of a TOML text. -/
def parse (text : String) : Except GridError Definition :=
  match (Toml.parse? text).bind (ofDocument? .toml) with
  | some d => .ok d
  | none => .error (.definition .malformed)

/-- The definition of a file. -/
def load (files : Files) (file : String) : Except GridError Definition :=
  match files file with
  | .ok text => parse text
  | .error reason => .error (.definition (.unreadable file reason))

/-- The columns with those of a definition added one after the other. -/
def addColumns (defaults : GridDefaults) :
    List ColumnDefinition → Columns → Except GridError Columns
  | [], cs => .ok cs
  | c :: rest, cs =>
    match c.build defaults with
    | .error e => .error e
    | .ok column =>
      match cs.add column with
      | .error e => .error e
      | .ok cs => addColumns defaults rest cs

/-- The grid of a definition. -/
def build (d : Definition) (config : Config) : Except GridError Grid :=
  if (trim d.entity.toList).isEmpty then .error (.definition .blankEntity)
  else (addColumns config.grid d.columns {}).map fun columns =>
    { context := .ofEntity d.entity
      columns := columns
      paging := config.paging
      defaultFormat := config.grid.format }

end Definition

end DataGrid
