import DataGrid.Crash
import DataGrid.Number.Binary64.Text
import DataGrid.Number.Decimal.Binary64
import DataGrid.Number.Decimal.Text
import DataGrid.Text.DecimalDigit

/-!
# Patterns for numbers and texts

A pattern is literal text with directives: a percent sign, flags, an optional
width, an optional precision and a conversion. The conversions are `d` for whole
numbers, `f` for a fixed number of places, `e` for an exponent, `s` for any
argument as text, `n` for a line break and `%` for itself. At most one directive
converts the argument, and a pattern that does not fit its argument has no text.
Numbers are written from their exact decimal digits; only `e` takes the nearest
binary number. A pattern is read from left to right, and a directive that asks for
more than any text can hold ends the program before what follows it is looked at.
-/

namespace DataGrid

open Number Text

/-- How an argument is written. -/
inductive Conversion where
  | whole | fixed | exponent | text
  deriving DecidableEq, Repr

/-- A directive that converts the argument. -/
structure Directive where
  left : Bool
  zeros : Bool
  grouped : Bool
  width : Nat
  precision : Option Nat
  conversion : Conversion
  deriving DecidableEq, Repr

/-- What a pattern is applied to. -/
inductive Argument where
  | number (x : Decimal)
  | text (s : List Char)
  deriving DecidableEq

/-- Why a pattern has no text. -/
inductive NoText where
  /-- The pattern does not fit its argument. -/
  | unfit
  /-- The program ends in writing the text. -/
  | crash (cause : Crash)
  deriving DecidableEq, Repr

namespace Conversion

/-- The letter of a conversion. -/
def letter : Conversion → Char
  | whole => 'd'
  | fixed => 'f'
  | exponent => 'e'
  | text => 's'

/-- The conversion of a letter. -/
def ofLetter? (letter : Char) : Option Conversion :=
  if letter = 'd' then some whole
  else if letter = 'f' then some fixed
  else if letter = 'e' then some exponent
  else if letter = 's' then some text
  else none

end Conversion

namespace Directive

/-- Widths and precisions are 64-bit words. -/
def sizeLimit : Nat := twoTo 64

/-- A width or a precision. -/
def size? (digits : List Char) : Option Nat := (naturalOf? digits).filter (· < sizeLimit)

/-- A flag of a directive. -/
def isFlag (c : Char) : Bool := c = '-' || c = '0' || c = ','

/-- What stands between the percent sign of a directive and its letter: flags and the digits of
a width and of a precision. -/
structure Modifiers where
  flags : List Char
  width : List Char
  precision : Option (List Char)
  deriving DecidableEq, Repr

/-- A precision behind its point; its digits, if there are any. -/
def takePrecision : List Char → Option (List Char) × List Char
  | '.' :: rest =>
    let digits := rest.takeWhile isDecimalDigit
    if digits.isEmpty then (none, '.' :: rest)
    else (some digits, rest.dropWhile isDecimalDigit)
  | s => (none, s)

/-- The modifiers at the head of a text, each part as long as it can be, and what follows. -/
def takeModifiers (s : List Char) : Modifiers × List Char :=
  let afterFlags := s.dropWhile isFlag
  let (precision, rest) := takePrecision (afterFlags.dropWhile isDecimalDigit)
  (⟨s.takeWhile isFlag, afterFlags.takeWhile isDecimalDigit, precision⟩, rest)

/-- The letters that end a directive. -/
def letters : List Char := ['d', 'f', 'e', 's', 'n', '%']

/-- The directive at the head of a text, as its modifiers and its letter, and what follows. -/
def take? : List Char → Option ((Modifiers × Char) × List Char)
  | '%' :: s =>
    match takeModifiers s with
    | (m, c :: rest) => if c ∈ letters then some ((m, c), rest) else none
    | (_, []) => none
  | _ => none

/-- The first directive in a text, with what stands before it and what follows. -/
def search? : List Char → Option (List Char × (Modifiers × Char) × List Char)
  | [] => none
  | c :: rest =>
    match take? (c :: rest) with
    | some (directive, after) => some ([], directive, after)
    | none => (search? rest).map fun (before, found) => (c :: before, found)

/-- The width of a directive; an absent one is zero. -/
def Modifiers.width? (m : Modifiers) : Option Nat :=
  if m.width.isEmpty then some 0 else size? m.width

/-- The precision of a directive, if it has one. -/
def Modifiers.precision? (m : Modifiers) : Option (Option Nat) :=
  match m.precision with
  | none => some none
  | some digits => (size? digits).map some

/-- A directive that converts the argument. -/
def build? (m : Modifiers) (c : Conversion) : Option Directive := do
  let width ← m.width?
  let precision ← m.precision?
  return ⟨'-' ∈ m.flags, '0' ∈ m.flags, ',' ∈ m.flags, width, precision, c⟩

/-- The digits in front of the point in groups of three, counted from the point, with a comma
between two groups. -/
def groupDigits : List Char → List Char
  | [] => []
  | c :: rest =>
    if rest.length % 3 = 0 ∧ !rest.isEmpty then c :: ',' :: groupDigits rest
    else c :: groupDigits rest

/-- A numeral with its whole part grouped; its sign and its places behind the point stay. -/
def group (body : List Char) : List Char :=
  let (sign, rest) := match body with
    | '-' :: rest => (['-'], rest)
    | rest => ([], rest)
  sign ++ groupDigits (rest.takeWhile (· ≠ '.')) ++ rest.dropWhile (· ≠ '.')

/-- A number with exactly `places` places, a half rounded away from zero, if it has that many
digits. -/
def fixed? (x : Decimal) (places : Nat) : Option (List Char) :=
  if h : places ≤ scaleLimit then
    let y := x.rescale places h
    if y.scale = places then some y.chars else none
  else none

/-- The argument as the directive's conversion writes it. -/
def convert? (d : Directive) : Argument → Option (List Char)
  | .number x =>
    match d.conversion with
    | .whole =>
      if x.isIntegral ∧ d.precision = none then
        let body := x.truncate.normalize.chars
        some (if d.grouped then group body else body)
      else none
    | .fixed =>
      (fixed? x (d.precision.getD 6)).map fun body => if d.grouped then group body else body
    | .exponent =>
      match d.grouped, x.toBinary64 with
      | false, .finite y => some (y.scientific (d.precision.getD 6))
      | _, _ => none
    | .text => plain? x.normalize.chars
  | .text s =>
    match d.conversion with
    | .text => plain? s
    | _ => none
where
  /-- A text, cut to the precision; grouping and zeros do not fit it. -/
  plain? (s : List Char) : Option (List Char) :=
    if d.grouped ∨ d.zeros then none
    else some (match d.precision with
      | some count => s.take count
      | none => s)

/-- The converted argument in the directive's width, which is one that `write` lets through. Zeros
go between the sign and the digits of a number. -/
def pad (d : Directive) (body : List Char) : List Char :=
  if d.left then padEnd ' ' d.width body
  else if d.zeros ∧ d.conversion ≠ .text then
    match body with
    | '-' :: digits => '-' :: padStart '0' (d.width - 1) digits
    | digits => padStart '0' d.width digits
  else padStart ' ' d.width body

/-- The most bytes that a text can hold, and so the widest that one can be. -/
def longestText : Nat := twoTo 63 - 1

/-- The most places that are counted where a number is written with an exponent. -/
def mostPlaces : Nat := twoTo 16 - 1

/-- Whether a number is to be written with an exponent and more places than are counted. -/
def overprecise (d : Directive) : Argument → Bool
  | .number _ =>
    d.conversion = .exponent && !d.grouped && decide (mostPlaces < d.precision.getD 6)
  | .text _ => false

/-- The text of a directive that converts the argument. -/
def write (d : Directive) (argument : Argument) : Except NoText (List Char) :=
  if d.overprecise argument then .error (.crash .placesOverflow)
  else
    match d.convert? argument with
    | none => .error .unfit
    | some body =>
      if body.length < d.width ∧ longestText < d.width then .error (.crash .capacityOverflow)
      else .ok (d.pad body)

/-- Text between directives, in which no percent sign may be left. -/
def literal (s : List Char) : Except NoText (List Char) :=
  if '%' ∈ s then .error .unfit else .ok s

/-- The text of a directive with a letter, and whether the argument has been converted by then. The
modifiers of `n` and `%` are not looked at, and no second directive converts the argument. -/
def expand (argument : Argument) (converted : Bool) (m : Modifiers) (letter : Char) :
    Except NoText (List Char × Bool) :=
  if letter = '%' then .ok (['%'], converted)
  else if letter = 'n' then .ok (['\n'], converted)
  else
    match converted, (Conversion.ofLetter? letter).bind (build? m) with
    | false, some d => (d.write argument).map (·, true)
    | _, _ => .error .unfit

/-- The text of what is left of a pattern: directives are searched from left to right, and what is
left before, between and behind them is literal text. `fuel` is more than the length of the text. -/
def formatWithin (argument : Argument) :
    (fuel : Nat) → (converted : Bool) → List Char → Except NoText (List Char)
  | 0, _, _ => .error .unfit
  | fuel + 1, converted, s =>
    match search? s with
    | none => literal s
    | some (before, (m, letter), after) => do
      let before ← literal before
      let (text, converted) ← expand argument converted m letter
      return before ++ text ++ (← formatWithin argument fuel converted after)

/-- The text of a pattern with its argument. -/
def format (pattern : List Char) (argument : Argument) : Except NoText (List Char) :=
  formatWithin argument (pattern.length + 1) false pattern

end Directive

end DataGrid
