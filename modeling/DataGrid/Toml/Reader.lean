import DataGrid.Toml.Scalar
import DataGrid.Toml.Table

/-!
# Reading TOML

A text is a list of statements, each on lines of its own: a key with its value, the
header of a table, or the header of one more table in a list. `Toml.parse?` reads
the statements and puts what they say into one table. A list may run over several
lines, a table in braces may not.
-/

namespace DataGrid.Toml

open DataGrid.Text

/-- What a line says. -/
inductive Statement where
  | entry (path : List String) (last : String) (doc : Document)
  | header (path : List String) (last : String)
  | item (path : List String) (last : String)

mutual

/-- The value at the head of a text. `depth` levels may still be opened. -/
private def takeValue : (fuel depth : Nat) → Take Document
  | 0, _, _ => none
  | fuel + 1, depth, s =>
    match depth, s with
    | 0, '[' :: _ => none
    | 0, '\x7b' :: _ => none
    | depth + 1, '[' :: rest => do
      let (items, rest) ← takeItems fuel depth rest
      return (.list items, rest)
    | depth + 1, '\x7b' :: rest => do
      let (fields, rest) ← takeFields fuel depth rest
      return (.table (toFields fields), rest)
    | _, s => takeScalar s

/-- The items of a list up to its closing bracket; a comma may stand behind the last one. -/
private def takeItems : (fuel depth : Nat) → Take (List Document)
  | 0, _, _ => none
  | fuel + 1, depth, s =>
    match skipSpace false s with
    | ']' :: rest => some ([], rest)
    | s => do
      let (item, rest) ← takeValue fuel depth s
      match skipSpace false rest with
      | ',' :: rest =>
        let (items, rest) ← takeItems fuel depth rest
        return (item :: items, rest)
      | ']' :: rest => return ([item], rest)
      | _ => none

/-- The keys of a table in braces up to its closing brace. -/
private def takeFields : (fuel depth : Nat) → Take Table
  | 0, _, _ => none
  | fuel + 1, depth, s =>
    match skipBlanks s with
    | '\x7d' :: rest => some ([], rest)
    | s => takeMoreFields fuel depth [] s

/-- One or more keys of a table in braces, added to those before them. -/
private def takeMoreFields : (fuel depth : Nat) → Table → Take Table
  | 0, _, _, _ => none
  | fuel + 1, depth, t, s => do
    let ((path, last), rest) ← takeKey s
    let rest ← expect '=' rest
    let (doc, rest) ← takeValue fuel depth (skipBlanks rest)
    let t ← t.entered doc true path last
    match skipBlanks rest with
    | ',' :: rest => takeMoreFields fuel depth t rest
    | '\x7d' :: rest => return (t, rest)
    | _ => none

end

/-- One statement with the end of its line. -/
private def takeStatement : Take Statement
  | '[' :: '[' :: rest => do
    let ((path, last), rest) ← takeKey rest
    let rest ← skipLineEnd? (← expectWord [']', ']'] rest)
    return (.item path last, rest)
  | '[' :: rest => do
    let ((path, last), rest) ← takeKey rest
    let rest ← skipLineEnd? (← expect ']' rest)
    return (.header path last, rest)
  | s => do
    let ((path, last), rest) ← takeKey s
    let rest ← expect '=' rest
    let (doc, rest) ← takeValue (2 * rest.length + 2) depthLimit (skipBlanks rest)
    return (.entry path last doc, ← skipLineEnd? rest)

/-- The statements of a text. `fuel` is above the length of the text. -/
private def statements? : (fuel : Nat) → List Char → Option (List Statement)
  | 0, _ => none
  | fuel + 1, s =>
    match skipSpace false s with
    | [] => some []
    | s => do
      let (statement, rest) ← takeStatement s
      return statement :: (← statements? fuel rest)

/-- The table with what one statement says, and the path of the table that takes the keys of the
following lines. -/
def extended? (state : List String × Table) : Statement → Option (List String × Table)
  | .entry path last doc =>
    (state.2.within state.1 (Table.entered doc true path last)).map (state.1, ·)
  | .header path last => (state.2.opened path last).map (path ++ [last], ·)
  | .item path last => (state.2.appended path last).map (path ++ [last], ·)

/-- The document of a text. A byte order mark in front of it does not count. -/
def parse? (text : String) : Option Document := do
  let s := match text.toList with
    | '\ufeff' :: rest => rest
    | s => s
  let statements ← statements? (s.length + 1) s
  let (_, table) ← statements.foldlM extended? ([], [])
  return .table (toFields table)

end DataGrid.Toml
