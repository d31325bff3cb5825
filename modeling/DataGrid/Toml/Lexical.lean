import DataGrid.Text.Take

/-!
# Lines, keys and strings of TOML

A text is made of lines. Blanks are spaces and tabs, a comment goes from `#` to the
end of its line, and control characters stand nowhere but in line ends. Basic
strings have escapes, literal strings have none; either kind may run over several
lines between triple quotes.
-/

namespace DataGrid.Toml

open DataGrid.Text

/-- Whether a character may stand in a comment or, quotes and backslashes apart, in a string. -/
def isPrintable (c : Char) : Bool := c = '\t' || (0x20 ≤ c.toNat && c.toNat ≠ 0x7F)

def skipBlanks (s : List Char) : List Char := s.dropWhile fun c => c = ' ' || c = '\t'

/-- The text behind a line end. -/
def skipNewline? : List Char → Option (List Char)
  | '\n' :: rest => some rest
  | '\r' :: '\n' :: rest => some rest
  | _ => none

/-- The text behind blanks, comments and line ends. `comment` says whether the text begins
inside a comment. -/
def skipSpace : (comment : Bool) → List Char → List Char
  | _, [] => []
  | _, '\r' :: '\n' :: rest => skipSpace false rest
  | comment, c :: rest =>
    if c = '\n' then skipSpace false rest
    else if comment then if isPrintable c then skipSpace true rest else c :: rest
    else if c = ' ' ∨ c = '\t' then skipSpace false rest
    else if c = '#' then skipSpace true rest
    else c :: rest

/-- The text behind the end of the line, where only blanks and a comment may stand. -/
def skipLineEnd? (s : List Char) : Option (List Char) :=
  let s := match skipBlanks s with
    | '#' :: rest => rest.dropWhile isPrintable
    | s => s
  if s.isEmpty then some [] else skipNewline? s

/-- The value of a hexadecimal digit. -/
def hexDigit? (c : Char) : Option Nat :=
  if c.isDigit then some (c.toNat - '0'.toNat)
  else if 'a' ≤ c ∧ c ≤ 'f' then some (c.toNat - 'a'.toNat + 10)
  else if 'A' ≤ c ∧ c ≤ 'F' then some (c.toNat - 'A'.toNat + 10)
  else none

/-- The character whose code point has exactly these hexadecimal digits. -/
def charOfHex? (digits : List Char) : Option Char := do
  let n := (← digits.mapM hexDigit?).foldl (fun n d => n * 16 + d) 0
  if n.isValidChar then some (Char.ofNat n) else none

/-- The character of an escape behind its backslash. -/
def takeEscape : Take Char
  | 'b' :: rest => some ('\x08', rest)
  | 't' :: rest => some ('\t', rest)
  | 'n' :: rest => some ('\n', rest)
  | 'f' :: rest => some ('\x0c', rest)
  | 'r' :: rest => some ('\r', rest)
  | '"' :: rest => some ('"', rest)
  | '\\' :: rest => some ('\\', rest)
  | 'u' :: rest => if rest.length < 4 then none
      else (charOfHex? (rest.take 4)).map (·, rest.drop 4)
  | 'U' :: rest => if rest.length < 8 then none
      else (charOfHex? (rest.take 8)).map (·, rest.drop 8)
  | _ => none

/-- A basic string up to its closing quote. `fuel` is at least the length of the text. -/
def takeBasic : (fuel : Nat) → Take (List Char)
  | 0, _ => none
  | fuel + 1, s =>
    match s with
    | [] => none
    | '"' :: rest => some ([], rest)
    | '\\' :: rest => do
      let (c, rest) ← takeEscape rest
      let (cs, rest) ← takeBasic fuel rest
      return (c :: cs, rest)
    | c :: rest =>
      if isPrintable c then (takeBasic fuel rest).map fun (cs, rest) => (c :: cs, rest)
      else none

/-- The text behind blanks and line ends. -/
def skipGap : List Char → List Char
  | ' ' :: rest => skipGap rest
  | '\t' :: rest => skipGap rest
  | '\n' :: rest => skipGap rest
  | '\r' :: '\n' :: rest => skipGap rest
  | s => s

/-- A basic string over several lines, up to its closing quotes. One or two more quotes in front
of these belong to the string. A backslash at the end of a line takes away the line end and all
blanks and line ends behind it. `fuel` is at least the length of the text. -/
def takeBasicLines : (fuel : Nat) → Take (List Char)
  | 0, _ => none
  | fuel + 1, s =>
    match s with
    | [] => none
    | '"' :: '"' :: '"' :: '"' :: '"' :: rest => some (['"', '"'], rest)
    | '"' :: '"' :: '"' :: '"' :: rest => some (['"'], rest)
    | '"' :: '"' :: '"' :: rest => some ([], rest)
    | '\r' :: '\n' :: rest => (takeBasicLines fuel rest).map fun (cs, rest) => ('\n' :: cs, rest)
    | '\\' :: rest =>
      match skipNewline? (skipBlanks rest) with
      | some rest => takeBasicLines fuel (skipGap rest)
      | none => do
        let (c, rest) ← takeEscape rest
        let (cs, rest) ← takeBasicLines fuel rest
        return (c :: cs, rest)
    | c :: rest =>
      if isPrintable c ∨ c = '\n' then
        (takeBasicLines fuel rest).map fun (cs, rest) => (c :: cs, rest)
      else none

/-- A literal string up to its closing quote. -/
def takeLiteral : Take (List Char)
  | [] => none
  | '\'' :: rest => some ([], rest)
  | c :: rest =>
    if isPrintable c then (takeLiteral rest).map fun (cs, rest) => (c :: cs, rest) else none

/-- A literal string over several lines, up to its closing quotes. -/
def takeLiteralLines : Take (List Char)
  | [] => none
  | '\'' :: '\'' :: '\'' :: '\'' :: '\'' :: rest => some (['\'', '\''], rest)
  | '\'' :: '\'' :: '\'' :: '\'' :: rest => some (['\''], rest)
  | '\'' :: '\'' :: '\'' :: rest => some ([], rest)
  | '\r' :: '\n' :: rest => (takeLiteralLines rest).map fun (cs, rest) => ('\n' :: cs, rest)
  | c :: rest =>
    if isPrintable c ∨ c = '\n' then
      (takeLiteralLines rest).map fun (cs, rest) => (c :: cs, rest)
    else none

/-- A string of any kind. A line end right behind opening triple quotes does not count. -/
def takeString : Take String := fun s =>
  let cs := match s with
    | '"' :: '"' :: '"' :: rest => takeBasicLines (rest.length + 1) ((skipNewline? rest).getD rest)
    | '"' :: rest => takeBasic (rest.length + 1) rest
    | '\'' :: '\'' :: '\'' :: rest => takeLiteralLines ((skipNewline? rest).getD rest)
    | '\'' :: rest => takeLiteral rest
    | _ => none
  cs.map fun (cs, rest) => (String.ofList cs, rest)

/-- Whether a character may stand in a key without quotes. -/
def isBare (c : Char) : Bool := c.isAlphanum || c = '-' || c = '_'

/-- One part of a key. -/
def takeKeyPart : Take String := fun s =>
  let cs := match s with
    | '"' :: rest => takeBasic (rest.length + 1) rest
    | '\'' :: rest => takeLiteral rest
    | s => if (s.takeWhile isBare).isEmpty then none
        else some (s.takeWhile isBare, s.dropWhile isBare)
  cs.map fun (cs, rest) => (String.ofList cs, rest)

/-- A key of at most `limit` parts with dots between them. Blanks may stand around each part.
The last part is given apart from those before it. -/
def takeKeyParts : (limit : Nat) → Take (List String × String)
  | 0, _ => none
  | limit + 1, s => do
    let (part, rest) ← takeKeyPart (skipBlanks s)
    match skipBlanks rest with
    | '.' :: rest =>
      let ((path, last), rest) ← takeKeyParts limit rest
      return ((part :: path, last), rest)
    | rest => return (([], part), rest)

/-- The number of levels that a key may have, and that lists and tables may be nested. -/
def depthLimit : Nat := 79

/-- A key. -/
def takeKey : Take (List String × String) := takeKeyParts depthLimit

end DataGrid.Toml
