import DataGrid.Filter.Operator
import DataGrid.Query.Query
import DataGrid.Total

/-!
# Columns

A column names a field or a count of related rows and says how it is filtered,
sorted and totalled. `ColumnState` is everything about a column but its
calculations, which are functions of the states of all columns. Filtering and
sorting are refused while a column has no expression.
-/

namespace DataGrid

/-- A requested condition on a column. -/
structure FilterOption where
  column : String
  operator : Operator
  value : String
  deriving DecidableEq, Repr

/-- The totals that a column is asked for. -/
structure TotalFlags where
  sum : Bool := false
  average : Bool := false
  max : Bool := false
  min : Bool := false
  calculation : Bool := false
  deriving DecidableEq, Repr

/-- The totals that a column has. -/
structure TotalValues where
  sum : Option Total := none
  average : Option Total := none
  max : Option Total := none
  min : Option Total := none
  calculations : List (String × Total) := []
  deriving DecidableEq

/-- One of the four aggregates of a column. -/
inductive TotalSlot where
  | sum | average | max | min
  deriving DecidableEq, Repr

namespace TotalSlot

def all : List TotalSlot := [sum, average, max, min]

def name : TotalSlot → String
  | sum => "sum"
  | average => "average"
  | max => "max"
  | min => "min"

end TotalSlot

namespace TotalFlags

def get (f : TotalFlags) : TotalSlot → Bool
  | .sum => f.sum
  | .average => f.average
  | .max => f.max
  | .min => f.min

def set (f : TotalFlags) (slot : TotalSlot) (enabled : Bool) : TotalFlags :=
  match slot with
  | .sum => { f with sum := enabled }
  | .average => { f with average := enabled }
  | .max => { f with max := enabled }
  | .min => { f with min := enabled }

/-- The flags with the aggregates outside `slots` switched off. -/
def restrict (f : TotalFlags) (slots : List TotalSlot) : TotalFlags :=
  { f with
    sum := f.sum && slots.contains .sum
    average := f.average && slots.contains .average
    max := f.max && slots.contains .max
    min := f.min && slots.contains .min }

/-- Whether any total is asked for. -/
def any (f : TotalFlags) : Bool := f.sum || f.average || f.max || f.min || f.calculation

end TotalFlags

namespace TotalValues

def get (v : TotalValues) : TotalSlot → Option Total
  | .sum => v.sum
  | .average => v.average
  | .max => v.max
  | .min => v.min

def set (v : TotalValues) (slot : TotalSlot) (total : Total) : TotalValues :=
  match slot with
  | .sum => { v with sum := some total }
  | .average => { v with average := some total }
  | .max => { v with max := some total }
  | .min => { v with min := some total }

/-- The first calculation result of this name. -/
def calculation? (v : TotalValues) (name : String) : Option Total := v.calculations.lookup name

end TotalValues

/-- A column without its calculations. -/
structure ColumnState where
  name : String
  givenTitle : Option String := none
  expression : Option String := none
  kind : Kind
  hidden : Bool := false
  format : Option String := none
  relation : Option Relation := none
  filterEnabled : Bool := false
  initialFilter : Option FilterOption := none
  sortEnabled : Bool := false
  /-- Whether the column itself, and not a default, says how it is sorted. -/
  sortDefined : Bool := false
  sortMode : SortMode := .threeState
  /-- The live direction; none for an unsorted column. -/
  direction : Option Direction := none
  initialDirection : Option Direction := none
  orderers : OrdererChain := {}
  flags : TotalFlags := {}
  values : TotalValues := {}

/-- A named total that is computed from the states of all columns. -/
structure Calculation where
  name : String
  result : List ColumnState → Value

/-- A column of a grid. -/
structure Column extends ColumnState where
  calculations : List Calculation := []

namespace ColumnState

/-- The display title, by default the name. -/
def title (c : ColumnState) : String := c.givenTitle.getD c.name

def isSorted (c : ColumnState) : Bool := c.direction.isSome

end ColumnState

namespace Column

/-- A column without an expression. -/
def named (name : String) (kind : Kind) : Column := { name := name, kind := kind }

/-- The column with an expression, which also is the primary sort expression. -/
def withExpression (c : Column) (expression : String) : Column :=
  { c with
    expression := some expression
    orderers := { c.orderers with primary := some expression } }

/-- A column named after its expression. -/
def ofExpression (expression : String) (kind : Kind) : Column :=
  (named expression kind).withExpression expression

def withTitle (c : Column) (title : String) : Column := { c with givenTitle := some title }

def withFormat (c : Column) (pattern : String) : Column := { c with format := some pattern }

def withRelation (c : Column) (r : Relation) : Column := { c with relation := some r }

def withHidden (c : Column) (hidden : Bool) : Column := { c with hidden := hidden }

/-- The column with the filter that applies until a request says otherwise. -/
def withInitialFilter (c : Column) (operator : Operator) (value : String) : Column :=
  { c with initialFilter := some ⟨c.name, operator, value⟩ }

/-- The column with one more tie-breaker. -/
def thenSortBy (c : Column) (expression : String) (direction : Direction) : Column :=
  let thenBy := c.orderers.thenBy ++ [⟨expression, direction⟩]
  { c with orderers := { c.orderers with thenBy := thenBy } }

def withInitialDirection (c : Column) (d : Direction) : Column :=
  { c with initialDirection := some d }

/-- The column with one more calculation. -/
def withCalculation (c : Column) (k : Calculation) : Column :=
  { c with
    calculations := c.calculations ++ [k]
    flags := { c.flags with calculation := true } }

/-- Filtering switched on or off; it stays off without an expression. -/
def enableFilter (c : Column) (enabled : Bool) : Column :=
  { c with filterEnabled := enabled && c.expression.isSome }

/-- Sorting switched on or off by the column itself; it stays off without an expression. -/
def enableSort (c : Column) (enabled : Bool) (mode : SortMode) : Column :=
  { c with
    sortDefined := true
    sortMode := mode
    sortEnabled := enabled && c.expression.isSome }

/-- Sorting switched on or off by a default, unless the column has done so itself. -/
def defaultSort (c : Column) (enabled : Bool) (mode : SortMode) : Column :=
  if c.sortDefined then c else { c.enableSort enabled mode with sortDefined := false }

def setDirection (c : Column) (d : Option Direction) : Column := { c with direction := d }

def setFlag (c : Column) (slot : TotalSlot) (enabled : Bool) : Column :=
  { c with flags := c.flags.set slot enabled }

/-- The column with its aggregates outside `slots` switched off. -/
def restrictFlags (c : Column) (slots : List TotalSlot) : Column :=
  { c with flags := c.flags.restrict slots }

/-- The column with all four aggregates switched off. -/
def disableAggregates (c : Column) : Column := c.restrictFlags []

def setValue (c : Column) (slot : TotalSlot) (total : Total) : Column :=
  { c with values := c.values.set slot total }

def pushCalculation (c : Column) (name : String) (total : Total) : Column :=
  { c with values := { c.values with calculations := c.values.calculations ++ [(name, total)] } }

/-- The column without any computed total. -/
def clearTotals (c : Column) : Column := { c with values := {} }

end Column

end DataGrid
