import DataGrid.Document
import DataGrid.Grid.Totals

/-!
# Written forms

How kinds, directions and other parts of grids are written in documents. Names are
exact. An operator is written as its ordinal. Each part is read from a document of
either notation and written as JSON; reading what was written gives the part back.
-/

namespace DataGrid

open Document

def Kind.ofDocument? (d : Dialect) : Document → Option Kind := named? d ofName?

def Kind.toJson (k : Kind) : Json := .string k.name

/-- Both the long and the short name are read. -/
def Direction.ofDocument? (d : Dialect) : Document → Option Direction := named? d ofName?

/-- The long name is written. -/
def Direction.toJson (d : Direction) : Json := .string d.name

def SortMode.ofDocument? (d : Dialect) : Document → Option SortMode := named? d ofName?

def SortMode.toJson (m : SortMode) : Json := .string m.name

def PagingKind.ofDocument? (d : Dialect) : Document → Option PagingKind := named? d ofName?

def PagingKind.toJson (k : PagingKind) : Json := .string k.name

def Operator.ofDocument? (doc : Document) : Option Operator :=
  doc.integer?.bind fun n => if 0 ≤ n then ofOrdinal? n.toNat else Option.none

def Operator.toJson (o : Operator) : Json := .number (.integer o.ordinal)

def FilterOption.ofDocument? (d : Dialect) (doc : Document) : Option FilterOption := do
  let parts ← components? d ["column", "operator", "value"] doc
  return {
    column := ← parts.required "column" text?
    operator := ← parts.required "operator" Operator.ofDocument?
    value := ← parts.required "value" text? }

def FilterOption.toJson (o : FilterOption) : Json :=
  .object [("column", .string o.column), ("operator", o.operator.toJson),
    ("value", .string o.value)]

def Relation.ofDocument? (d : Dialect) (doc : Document) : Option Relation := do
  let parts ← components? d ["entity", "keys"] doc
  return {
    entity := ← parts.required "entity" text?
    keys := ← parts.required "keys" (listOf? (pair? d)) }

def Relation.toJson (r : Relation) : Json :=
  .object [("entity", .string r.entity),
    ("keys", .array (r.keys.map fun (outer, inner) => .array [.string outer, .string inner]))]

def ThenBy.ofDocument? (d : Dialect) (doc : Document) : Option ThenBy := do
  let parts ← components? d ["expression", "direction"] doc
  return {
    expression := ← parts.required "expression" text?
    direction := ← parts.required "direction" (Direction.ofDocument? d) }

def ThenBy.toJson (t : ThenBy) : Json :=
  .object [("direction", t.direction.toJson), ("expression", .string t.expression)]

theorem Operator.ofDocument?_toJson (o : Operator) :
    Operator.ofDocument? (Document.ofJson o.toJson) = some o := by
  cases o <;> rfl

theorem FilterOption.ofDocument?_toJson (o : FilterOption) :
    FilterOption.ofDocument? .json (Document.ofJson o.toJson) = some o := by
  have h := o.operator.ofDocument?_toJson
  obtain ⟨column, operator, value⟩ := o
  simp [FilterOption.ofDocument?, FilterOption.toJson, Document.ofJson, Document.ofFields,
    components?, Parts.required, text?, List.lookup_cons, h]

theorem ThenBy.ofDocument?_toJson (t : ThenBy) :
    ThenBy.ofDocument? .json (Document.ofJson t.toJson) = some t := by
  obtain ⟨expression, direction⟩ := t
  cases direction <;>
    simp [ThenBy.ofDocument?, ThenBy.toJson, Document.ofJson, Document.ofFields, components?,
      Parts.required, text?, List.lookup_cons, Direction.ofDocument?, Direction.toJson, named?,
      Direction.name, Direction.ofName?]

/-- The pairs of a relation as documents. -/
private theorem mapM_pair? (keys : List (String × String)) :
    (ofItems (keys.map fun (outer, inner) => .array [.string outer, .string inner])).mapM
      (pair? .json) = some keys := by
  induction keys with
  | nil => rfl
  | cons k keys ih =>
    obtain ⟨outer, inner⟩ := k
    simp [ofItems, ofJson, List.mapM_cons, pair?, text?, ih]

theorem Relation.ofDocument?_toJson (r : Relation) :
    Relation.ofDocument? .json (Document.ofJson r.toJson) = some r := by
  have h := mapM_pair? r.keys
  obtain ⟨entity, keys⟩ := r
  simp [Relation.ofDocument?, Relation.toJson, Document.ofJson, Document.ofFields, components?,
    Parts.required, text?, listOf?, List.lookup_cons, h]

end DataGrid
