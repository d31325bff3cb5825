import DataGrid.Json
import DataGrid.Number.Binary64.Text

/-!
# Writing JSON

`compact` has no blanks; `pretty` puts each item and each field on a line of its
own, indented by two spaces a level, and writes empty lists and objects as a pair
of brackets. Control characters, quotes and backslashes are escaped in strings.
-/

namespace DataGrid

open Number Text

def JsonNumber.chars : JsonNumber → List Char
  | integer n => integerText n
  | real x => x.document

def JsonNumber.text (n : JsonNumber) : String := String.ofList n.chars

namespace Json

/-- A hexadecimal digit. -/
private def hexDigit (n : Nat) : Char :=
  if n < 10 then Char.ofNat (48 + n) else Char.ofNat (87 + n)

/-- A character of a string. -/
private def escape (c : Char) : List Char :=
  if c = '"' then ['\\', '"']
  else if c = '\\' then ['\\', '\\']
  else if c = '\n' then ['\\', 'n']
  else if c = '\r' then ['\\', 'r']
  else if c = '\t' then ['\\', 't']
  else if c = '\x08' then ['\\', 'b']
  else if c = '\x0c' then ['\\', 'f']
  else if c.toNat < 32 then
    ['\\', 'u', '0', '0', hexDigit (c.toNat / 16), hexDigit (c.toNat % 16)]
  else [c]

/-- A string between its quotes. -/
def quote (s : String) : String := String.ofList ('"' :: s.toList.flatMap escape ++ ['"'])

private def openBrace : String := "\x7b"
private def closeBrace : String := "\x7d"

mutual

/-- The text of a value without blanks. -/
def compact : Json → String
  | null => "null"
  | bool b => if b then "true" else "false"
  | number n => n.text
  | string s => quote s
  | array items => "[" ++ ",".intercalate (compactItems items) ++ "]"
  | object fields => openBrace ++ ",".intercalate (compactFields fields) ++ closeBrace

def compactItems : List Json → List String
  | [] => []
  | v :: rest => compact v :: compactItems rest

def compactFields : List (String × Json) → List String
  | [] => []
  | (name, v) :: rest => (quote name ++ ":" ++ compact v) :: compactFields rest

end

/-- The lines of a block between its brackets. -/
private def block (opening closing : String) (level : Nat) (lines : List String) : String :=
  if lines.isEmpty then opening ++ closing
  else
    let indent (n : Nat) : String := "\n" ++ String.ofList (List.replicate (2 * n) ' ')
    opening ++ indent (level + 1) ++ ("," ++ indent (level + 1)).intercalate lines ++
      indent level ++ closing

mutual

private def prettyAt : Nat → Json → String
  | level, array items => block "[" "]" level (prettyItems (level + 1) items)
  | level, object fields => block openBrace closeBrace level (prettyFields (level + 1) fields)
  | _, null => "null"
  | _, bool b => if b then "true" else "false"
  | _, number n => n.text
  | _, string s => quote s

private def prettyItems : Nat → List Json → List String
  | _, [] => []
  | level, v :: rest => prettyAt level v :: prettyItems level rest

private def prettyFields : Nat → List (String × Json) → List String
  | _, [] => []
  | level, (name, v) :: rest =>
    (quote name ++ ": " ++ prettyAt level v) :: prettyFields level rest

end

/-- The text of a value over several lines. -/
def pretty (v : Json) : String := prettyAt 0 v

end Json

end DataGrid
