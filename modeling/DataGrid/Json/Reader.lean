import DataGrid.Json.NumberReader

/-!
# Reading JSON

`Json.parse?` reads a whole document. Lists and objects may be nested up to a
fixed depth. A field that is written twice keeps its last value. In strings,
control characters have to be escaped, and escaped surrogates have to come in
pairs.
-/

namespace DataGrid.Json

open Text

private def skipBlanks (s : List Char) : List Char :=
  s.dropWhile fun c => c = ' ' || c = '\n' || c = '\t' || c = '\r'

private def hexValue? (c : Char) : Option Nat :=
  if c.isDigit then some (c.toNat - 48)
  else if 'a' ≤ c ∧ c ≤ 'f' then some (c.toNat - 87)
  else if 'A' ≤ c ∧ c ≤ 'F' then some (c.toNat - 55)
  else none

/-- Four hexadecimal digits. -/
private def takeHex? : List Char → Option (Nat × List Char)
  | a :: b :: c :: d :: rest => do
    let n := ((← hexValue? a) * 16 + (← hexValue? b)) * 16
    return ((n + (← hexValue? c)) * 16 + (← hexValue? d), rest)
  | _ => none

/-- The character of an escape with four digits; a leading surrogate needs the escape of its
partner behind it. -/
private def takeUnicode? (s : List Char) : Option (Char × List Char) := do
  let (n, rest) ← takeHex? s
  if 0xDC00 ≤ n ∧ n ≤ 0xDFFF then none
  else if 0xD800 ≤ n ∧ n ≤ 0xDBFF then
    match rest with
    | '\\' :: 'u' :: rest =>
      let (m, rest) ← takeHex? rest
      if 0xDC00 ≤ m ∧ m ≤ 0xDFFF then
        return (Char.ofNat (0x10000 + (n - 0xD800) * 0x400 + (m - 0xDC00)), rest)
      else none
    | _ => none
  else return (Char.ofNat n, rest)

private def simpleEscape? : Char → Option Char
  | '"' => some '"'
  | '\\' => some '\\'
  | '/' => some '/'
  | 'b' => some '\x08'
  | 'f' => some '\x0c'
  | 'n' => some '\n'
  | 'r' => some '\r'
  | 't' => some '\t'
  | _ => none

/-- The characters of a string up to its closing quote. `fuel` is at least the length of the
text. -/
private def takeString? : (fuel : Nat) → List Char → Option (List Char × List Char)
  | 0, _ => none
  | fuel + 1, s =>
    match s with
    | [] => none
    | '"' :: rest => some ([], rest)
    | '\\' :: 'u' :: rest => do
      let (c, rest) ← takeUnicode? rest
      let (cs, rest) ← takeString? fuel rest
      return (c :: cs, rest)
    | '\\' :: c :: rest => do
      let c ← simpleEscape? c
      let (cs, rest) ← takeString? fuel rest
      return (c :: cs, rest)
    | c :: rest => do
      if c.toNat < 32 ∨ c = '\\' then none
      let (cs, rest) ← takeString? fuel rest
      return (c :: cs, rest)

private def skipWord? (word : String) (value : Json) (s : List Char) :
    Option (Json × List Char) :=
  if word.toList.isPrefixOf s then some (value, s.drop word.length) else none

/-- The levels of lists and objects that a document may have. -/
def depthLimit : Nat := 127

mutual

/-- The value at the head of a text. `depth` levels may still be opened. -/
private def takeValue? : (fuel depth : Nat) → List Char → Option (Json × List Char)
  | 0, _, _ => none
  | fuel + 1, depth, s =>
    match skipBlanks s with
    | 'n' :: rest => skipWord? "null" .null ('n' :: rest)
    | 't' :: rest => skipWord? "true" (.bool true) ('t' :: rest)
    | 'f' :: rest => skipWord? "false" (.bool false) ('f' :: rest)
    | '"' :: rest => do
      let (cs, rest) ← takeString? (rest.length + 1) rest
      return (.string (String.ofList cs), rest)
    | '[' :: rest =>
      match depth, skipBlanks rest with
      | 0, _ => none
      | _ + 1, ']' :: rest => some (.array [], rest)
      | depth + 1, rest => do
        let (items, rest) ← takeItems? fuel depth rest
        return (.array items, rest)
    | '\x7b' :: rest =>
      match depth, skipBlanks rest with
      | 0, _ => none
      | _ + 1, '\x7d' :: rest => some (.object [], rest)
      | depth + 1, rest => do
        let (fields, rest) ← takeFields? fuel depth [] rest
        return (.object fields, rest)
    | s => (JsonNumber.take? s).map fun (n, rest) => (.number n, rest)

/-- The items of a list that has one, up to its closing bracket. -/
private def takeItems? : (fuel depth : Nat) → List Char → Option (List Json × List Char)
  | 0, _, _ => none
  | fuel + 1, depth, s => do
    let (item, rest) ← takeValue? fuel depth s
    match skipBlanks rest with
    | ',' :: rest =>
      let (items, rest) ← takeItems? fuel depth rest
      return (item :: items, rest)
    | ']' :: rest => return ([item], rest)
    | _ => none

/-- The fields of an object that has one, up to its closing brace. -/
private def takeFields? : (fuel depth : Nat) → Record → List Char → Option (Record × List Char)
  | 0, _, _, _ => none
  | fuel + 1, depth, fields, s => do
    match skipBlanks s with
    | '"' :: rest =>
      let (name, rest) ← takeString? (rest.length + 1) rest
      match skipBlanks rest with
      | ':' :: rest =>
        let (value, rest) ← takeValue? fuel depth rest
        let fields := Record.set (String.ofList name) value fields
        match skipBlanks rest with
        | ',' :: rest => takeFields? fuel depth fields rest
        | '\x7d' :: rest => return (fields, rest)
        | _ => none
      | _ => none
    | _ => none

end

/-- The value of a document, which may have blanks around it and nothing else. -/
def parse? (document : String) : Option Json :=
  let s := document.toList
  match takeValue? (2 * s.length + 2) depthLimit s with
  | some (value, rest) => if (skipBlanks rest).isEmpty then some value else none
  | none => none

end DataGrid.Json
