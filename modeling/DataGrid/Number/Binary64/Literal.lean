import DataGrid.Number.Binary64
import DataGrid.Text.Blank
import DataGrid.Text.Digits

/-!
# Reading a binary64 number

A literal is an optional sign and then `nan`, `inf` or `infinity` in any case, or
digits with at most one point and an optional exponent. There is at least one
digit before the exponent, and at least one in it. The number read is the one
nearest to the literal's exact value.
-/

namespace DataGrid.Number

open DataGrid.Text

/-- The exact value `digits * 10 ^ exponent` of a numeral, with its sign. -/
structure Numeral where
  negative : Bool
  digits : Nat
  exponent : Int
  deriving DecidableEq, Repr

namespace Numeral

/-- The exponent part of a numeral; an absent one is zero. -/
private def exponent? : List Char → Option Int
  | [] => some 0
  | c :: rest =>
    if c = 'e' ∨ c = 'E' then
      match rest with
      | '+' :: digits => (naturalOf? digits).map Int.ofNat
      | '-' :: digits => (naturalOf? digits).map fun n => -Int.ofNat n
      | digits => (naturalOf? digits).map Int.ofNat
    else none

/-- A numeral without its sign. -/
private def unsigned? (negative : Bool) (s : List Char) : Option Numeral :=
  let whole := s.takeWhile Char.isDigit
  let (fraction, rest) := match s.dropWhile Char.isDigit with
    | '.' :: after => (after.takeWhile Char.isDigit, after.dropWhile Char.isDigit)
    | after => ([], after)
  if whole.isEmpty && fraction.isEmpty then none
  else (exponent? rest).map fun e =>
    ⟨negative, Nat.ofDigitChars 10 (whole ++ fraction) 0, e - fraction.length⟩

/-- The numeral that a text spells. -/
def ofChars? : List Char → Option Numeral
  | '+' :: rest => unsigned? false rest
  | '-' :: rest => unsigned? true rest
  | rest => unsigned? false rest

/-- The exponent of ten just above the value, for a value that is not zero. -/
def magnitude (n : Numeral) : Int := (digitsOf n.digits).length + n.exponent

/-- The exact value as a quotient. -/
def ratio (n : Numeral) : Nat × Nat :=
  if 0 ≤ n.exponent then (n.digits * tenTo n.exponent.toNat, 1)
  else (n.digits, tenTo (-n.exponent).toNat)

/-- The binary64 number nearest to the numeral. Values beyond every binary64 number, and
values below half a unit, are settled by their magnitude. -/
def toBinary64 (n : Numeral) : Binary64 :=
  if n.digits = 0 ∨ n.magnitude < -330 then .finite ⟨n.negative, 0⟩
  else if 320 < n.magnitude then .infinite n.negative
  else Binary64.ofRatio n.negative n.ratio.1 n.ratio.2

/-- Whether the 32-bit number nearest to the numeral is finite: such numbers have 24 binary
digits, units of 2^-149 and a limit of 2^277 units. -/
def isFinite32 (n : Numeral) : Bool :=
  if n.digits = 0 ∨ n.magnitude < -60 then true
  else if 60 < n.magnitude then false
  else nearestCount 24 (n.ratio.1 * twoTo 149) n.ratio.2 < twoTo 277

end Numeral

namespace Binary64

/-- The words for numbers that have no digits. -/
private def word? (negative : Bool) (s : List Char) : Option Binary64 :=
  let word := lowered s
  if word = "nan".toList then some .nan
  else if word = "inf".toList ∨ word = "infinity".toList then some (.infinite negative)
  else none

/-- The binary64 number that a literal denotes. -/
def ofChars? (s : List Char) : Option Binary64 :=
  match Numeral.ofChars? s with
  | some n => some n.toBinary64
  | none => match s with
    | '+' :: rest => word? false rest
    | '-' :: rest => word? true rest
    | rest => word? false rest

end Binary64

end DataGrid.Number
