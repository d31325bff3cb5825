import DataGrid.Document

/-!
# Tables under construction

A TOML text adds to its tables line by line, and how a table came about decides
what may still be added. A table with a header of its own has only that one. A
table that is only on the way to another one may still get its header. A table that
a dotted key made takes further dotted keys and no header. No key is given twice.
-/

namespace DataGrid.Toml

/-- How a table came about. -/
inductive Origin where
  /-- By a header of its own. -/
  | header
  /-- On the way to a table with a header. -/
  | implied
  /-- On the way of a dotted key. -/
  | dotted
  deriving DecidableEq, Repr

/-- What stands behind a key. The items of a list of tables stand with the last one first. -/
inductive Node where
  | value (doc : Document)
  | table (origin : Origin) (entries : List (String × Node))
  | tables (items : List (List (String × Node)))

/-- The keys of a table. -/
abbrev Table := List (String × Node)

namespace Table

/-- The table with the node behind a key replaced, or added. -/
def set (key : String) (node : Node) : Table → Table
  | [] => [(key, node)]
  | (k, n) :: rest => if k = key then (k, node) :: rest else (k, n) :: set key node rest

/-- The table with `change` applied to the table at a path. Tables that are missing on the way
are made, and a list of tables means its last item. -/
def within : (path : List String) → (change : Table → Option Table) → Table → Option Table
  | [], change, t => change t
  | key :: path, change, t =>
    match t.lookup key with
    | none => (within path change []).map fun sub => t.set key (.table .implied sub)
    | some (.table origin sub) =>
      (within path change sub).map fun sub => t.set key (.table origin sub)
    | some (.tables (last :: items)) =>
      (within path change last).map fun last => t.set key (.tables (last :: items))
    | _ => none

/-- The table with a header's table opened. -/
def opened (path : List String) (last : String) : Table → Option Table :=
  within path fun t =>
    match t.lookup last with
    | none => some (t.set last (.table .header []))
    | some (.table .implied sub) => some (t.set last (.table .header sub))
    | _ => none

/-- The table with one more item in a list of tables. -/
def appended (path : List String) (last : String) : Table → Option Table :=
  within path fun t =>
    match t.lookup last with
    | none => some (t.set last (.tables [[]]))
    | some (.tables items) => some (t.set last (.tables ([] :: items)))
    | _ => none

/-- The table with a value behind a key of one or more parts. `direct` says whether the table
takes keys of its own here. -/
def entered (doc : Document) : (direct : Bool) → (path : List String) → (last : String) →
    Table → Option Table
  | direct, [], last, t =>
    if direct ∧ (t.lookup last).isNone then some (t.set last (.value doc)) else none
  | _, key :: path, last, t =>
    match t.lookup key with
    | none => (entered doc true path last []).map fun sub => t.set key (.table .dotted sub)
    | some (.table .dotted sub) =>
      (entered doc true path last sub).map fun sub => t.set key (.table .dotted sub)
    | some (.table .implied sub) =>
      (entered doc false path last sub).map fun sub => t.set key (.table .implied sub)
    | some (.tables (item :: items)) =>
      (entered doc false path last item).map fun item => t.set key (.tables (item :: items))
    | _ => none

end Table

mutual

/-- The document behind a key. -/
def Node.toDocument : Node → Document
  | .value doc => doc
  | .table _ entries => .table (toFields entries)
  | .tables items => .list (toItems items).reverse

def toFields : List (String × Node) → List (String × Document)
  | [] => []
  | (key, node) :: rest => (key, node.toDocument) :: toFields rest

def toItems : List (List (String × Node)) → List Document
  | [] => []
  | entries :: rest => .table (toFields entries) :: toItems rest

end

end DataGrid.Toml
