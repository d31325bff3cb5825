import DataGrid.Json

/-!
# Documents

A document is what is left of a JSON or TOML text once it is read: texts, whole
numbers, truth values, lists and tables. Definitions and settings are read from
documents, so that one reader serves both notations. Values that no definition
holds, such as numbers with a fraction, are kept as `other`.

The two notations differ in two rules, which a `Dialect` holds.
-/

namespace DataGrid

/-- A structured text. -/
inductive Document where
  | null
  | boolean (b : Bool)
  | integer (n : Int)
  | text (s : String)
  | list (items : List Document)
  | table (fields : List (String × Document))
  | other
  deriving Inhabited

namespace Document

mutual

/-- The document of a JSON value. -/
def ofJson : Json → Document
  | .null => null
  | .bool b => boolean b
  | .number (.integer n) => integer n
  | .number (.real _) => other
  | .string s => text s
  | .array items => list (ofItems items)
  | .object fields => table (ofFields fields)

def ofItems : List Json → List Document
  | [] => []
  | v :: rest => ofJson v :: ofItems rest

def ofFields : List (String × Json) → List (String × Document)
  | [] => []
  | (name, v) :: rest => (name, ofJson v) :: ofFields rest

end

/-- The rules in which notations differ. -/
structure Dialect where
  /-- Whether a list that stands for a structure may be longer than the structure. -/
  surplus : Bool
  /-- What stands behind a name that needs nothing behind it. -/
  isUnit : Document → Bool

/-- In JSON, a list is as long as its structure, and nothing is `null`. -/
def Dialect.json : Dialect where
  surplus := false
  isUnit
    | null => true
    | _ => false

/-- In TOML, the items behind a structure are ignored, and nothing is an empty table or list. -/
def Dialect.toml : Dialect where
  surplus := true
  isUnit
    | table [] => true
    | list [] => true
    | _ => false

def text? : Document → Option String
  | text s => some s
  | _ => none

def boolean? : Document → Option Bool
  | boolean b => some b
  | _ => none

def integer? : Document → Option Int
  | integer n => some n
  | _ => none

/-- A list of documents that `read` accepts. -/
def listOf? {α : Type} (read : Document → Option α) : Document → Option (List α)
  | list items => items.mapM read
  | _ => none

/-- Two texts. -/
def pair? (d : Dialect) : Document → Option (String × String)
  | list (a :: b :: rest) =>
    if d.surplus ∨ rest.isEmpty then return (← a.text?, ← b.text?) else none
  | _ => none

/-- One of several alternatives, by its name. -/
def named? {α : Type} (d : Dialect) (ofName? : String → Option α) : Document → Option α
  | text name => ofName? name
  | table [(name, payload)] => if d.isUnit payload then ofName? name else none
  | _ => none

/-- The parts of a structure by name. -/
structure Parts where
  get? : String → Option Document
  /-- Whether the parts were written with their names. -/
  labelled : Bool

/-- The parts of a structure, written as a table or, in the order of `names`, as a list. -/
def components? (d : Dialect) (names : List String) : Document → Option Parts
  | table fields => some ⟨fun name => fields.lookup name, true⟩
  | list items =>
    if d.surplus ∨ items.length ≤ names.length then
      some ⟨fun name => (names.zip items).lookup name, false⟩
    else none
  | _ => none

namespace Parts

/-- A part that has to be there. -/
def required {α : Type} (p : Parts) (name : String) (read : Document → Option α) : Option α :=
  (p.get? name).bind read

/-- A part that a table may leave out. -/
def optional {α : Type} (p : Parts) (name : String) (read : Document → Option α) :
    Option (Option α) :=
  match p.get? name with
  | some doc => (read doc).map some
  | none => if p.labelled then some none else none

/-- A part with a value that stands in for it. -/
def defaulted {α : Type} (p : Parts) (name : String) (read : Document → Option α)
    (standIn : α) : Option α :=
  match p.get? name with
  | some doc => read doc
  | none => some standIn

end Parts

end Document

end DataGrid
