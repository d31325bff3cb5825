import DataGrid.Document
import DataGrid.Number.Binary64.Literal
import DataGrid.Number.Integer
import DataGrid.Toml.Lexical

/-!
# Numbers, truth values and dates of TOML

Digits may have single underscores between them. A whole number fits a signed
64-bit word; decimal ones have no leading zeros, and a hexadecimal, octal or binary
one has no sign. A number with a fraction or an exponent is `other`. Dates and times
have to exist, and are tables that say nothing about any structure.
-/

namespace DataGrid.Toml

open DataGrid.Text DataGrid.Number

/-- The digits at the head of a text without the underscores between them, and what follows. -/
def spanRun (p : Char → Bool) : List Char → List Char × List Char
  | [] => ([], [])
  | '_' :: c :: rest =>
    if p c then
      let (digits, rest) := spanRun p rest
      (c :: digits, rest)
    else ([], '_' :: c :: rest)
  | c :: rest =>
    if p c then
      let (digits, rest) := spanRun p rest
      (c :: digits, rest)
    else ([], c :: rest)

/-- One or more digits; the first is no underscore. -/
def takeRun (p : Char → Bool) : Take (List Char)
  | [] => none
  | c :: rest =>
    if p c then
      let (digits, rest) := spanRun p rest
      some (c :: digits, rest)
    else none

/-- The digits of a decimal number; a leading zero stands alone. -/
def takeWhole : Take (List Char)
  | '0' :: rest => some (['0'], rest)
  | s => takeRun Char.isDigit s

/-- The sign of a decimal number, if it has one. -/
def takeSign : List Char → List Char × List Char
  | '+' :: rest => (['+'], rest)
  | '-' :: rest => (['-'], rest)
  | s => ([], s)

/-- An exponent with its letter. -/
def takeExponent : Take (List Char)
  | [] => none
  | c :: rest =>
    if c = 'e' ∨ c = 'E' then
      let (sign, rest) := takeSign rest
      (takeRun Char.isDigit rest).map fun (digits, rest) => ('e' :: sign ++ digits, rest)
    else none

/-- What follows the whole part of a number that is not whole: a fraction, an exponent or
both. -/
def takeTail : Take (List Char)
  | '.' :: rest => do
    let (digits, rest) ← takeRun Char.isDigit rest
    match takeExponent rest with
    | some (exponent, rest) => return ('.' :: digits ++ exponent, rest)
    | none => return ('.' :: digits, rest)
  | s => takeExponent s

/-- A number without a base mark. A number that is not whole must not be too large. -/
def takeDecimal : Take Document := fun s => do
  let (sign, rest) := takeSign s
  let (digits, rest) ← takeWhole rest
  match takeTail rest with
  | some (tail, rest) =>
    if Binary64.ofChars? (sign ++ digits ++ tail) = some (.infinite false) then none
    else return (.other, rest)
  | none => return (.integer (← int64Of? (sign ++ digits)).toInt, rest)

/-- The words for numbers that have no digits. -/
def takeSpecial : Take Document := fun s =>
  let (_, s) := takeSign s
  (expectWord ['i', 'n', 'f'] s <|> expectWord ['n', 'a', 'n'] s).map (.other, ·)

/-- A whole number in another base, behind its mark. -/
def takeBased (base : Nat) (p : Char → Bool) : Take Document := fun s => do
  let (digits, rest) ← takeRun p s
  let n := (← digits.mapM hexDigit?).foldl (fun n d => n * base + d) 0
  if fitsWord 64 n then return (.integer n, rest) else none

def takeNumber : Take Document
  | '0' :: 'x' :: rest => takeBased 16 (fun c => (hexDigit? c).isSome) rest
  | '0' :: 'o' :: rest => takeBased 8 (fun c => '0' ≤ c && c ≤ '7') rest
  | '0' :: 'b' :: rest => takeBased 2 (fun c => c = '0' || c = '1') rest
  | s => takeDecimal s <|> takeSpecial s

/-- A number of `width` digits between two bounds. -/
private def takeField (width low high : Nat) : Take Nat := fun s => do
  if s.length < width then none
  let n ← naturalOf? (s.take width)
  if low ≤ n ∧ n ≤ high then return (n, s.drop width) else none

/-- The days of a month. -/
private def daysIn (year month : Nat) : Nat :=
  if month = 2 then
    if year % 4 = 0 ∧ (year % 100 ≠ 0 ∨ year % 400 = 0) then 29 else 28
  else if month = 4 ∨ month = 6 ∨ month = 9 ∨ month = 11 then 30
  else 31

/-- The text behind a date. -/
def skipDate? (s : List Char) : Option (List Char) := do
  let (year, s) ← takeField 4 0 9999 s
  let (month, s) ← takeField 2 1 12 (← expect '-' s)
  let (_, s) ← takeField 2 1 (daysIn year month) (← expect '-' s)
  return s

/-- The text behind a time of day. -/
def skipTime? (s : List Char) : Option (List Char) := do
  let (_, s) ← takeField 2 0 23 s
  let (_, s) ← takeField 2 0 59 (← expect ':' s)
  let (_, s) ← takeField 2 0 60 (← expect ':' s)
  match s with
  | '.' :: rest =>
    if (rest.takeWhile Char.isDigit).isEmpty then return s
    else return rest.dropWhile Char.isDigit
  | s => return s

/-- The text behind an offset, if there is one. -/
def skipOffset : List Char → List Char
  | [] => []
  | c :: rest =>
    if c = 'Z' ∨ c = 'z' then rest
    else if c = '+' ∨ c = '-' then
      (do
        let (_, s) ← takeField 2 0 23 rest
        let (_, s) ← takeField 2 0 59 (← expect ':' s)
        return s : Option (List Char)).getD (c :: rest)
    else c :: rest

/-- The text behind the time of day and the offset of a moment, if they are there. -/
def skipMomentTime : List Char → List Char
  | [] => []
  | c :: rest =>
    if c = 'T' ∨ c = 't' ∨ c = ' ' then
      match skipTime? rest with
      | some rest => skipOffset rest
      | none => c :: rest
    else c :: rest

/-- What is left of a date or a time: a table whose one key names no part of a structure. -/
def temporal : Document := .table [("", .other)]

/-- A date, a time of day or a moment. -/
def takeTemporal : Take Document := fun s =>
  ((skipDate? s).map skipMomentTime <|> skipTime? s).map (temporal, ·)

def takeTruth : Take Document := fun s =>
  ((expectWord ['t', 'r', 'u', 'e'] s).map (.boolean true, ·))
    <|> (expectWord ['f', 'a', 'l', 's', 'e'] s).map (.boolean false, ·)

/-- A value that is neither a list nor a table. -/
def takeScalar : Take Document := fun s =>
  match s with
  | [] => none
  | c :: _ =>
    if c = '"' ∨ c = '\'' then (takeString s).map fun (text, rest) => (.text text, rest)
    else takeTruth s <|> takeTemporal s <|> takeNumber s

end DataGrid.Toml
