import DataGrid.Json
import DataGrid.Text.Digits

/-!
# Reading JSON numbers

A number without a fraction and an exponent that fits a 64-bit word is an integer.
Any other number keeps as many leading digits as an unsigned 64-bit word can hold,
rounds them to a binary number, and multiplies or divides that by a rounded power
of ten; a number out of range is refused. Minus zero is a binary number.
-/

namespace DataGrid.JsonNumber

open Number Text

/-- The greatest unsigned 64-bit word. -/
def wordMax : Nat := twoTo 64 - 1

/-- Digits appended to a significand while it fits a word, and what is left of them. -/
private def appendDigits (significand : Nat) : List Char → Nat × List Char
  | [] => (significand, [])
  | c :: rest =>
    let next := 10 * significand + (c.toNat - '0'.toNat)
    if wordMax < next then (significand, c :: rest) else appendDigits next rest

/-- `significand * 10 ^ exponent` in binary steps: one rounded product or quotient, after
quotients by 10^308 for an exponent below the least power of ten. -/
private def scale? : (fuel : Nat) → Binary64 → Int → Option Binary64
  | 0, _, _ => none
  | fuel + 1, f, exponent =>
    if exponent.natAbs ≤ 308 then
      let power := Binary64.ofInt (tenTo exponent.natAbs : Nat)
      some (if 0 ≤ exponent then f.mul power else f.div power)
    else if f = .zero then some f
    else if 0 ≤ exponent then none
    else scale? fuel (f.div (Binary64.ofInt (tenTo 308 : Nat))) (exponent + 308)

/-- The binary number of a significand and an exponent of ten, if it is in range. -/
private def real? (negative : Bool) (significand : Nat) (exponent : Int) : Option JsonNumber :=
  match scale? 8 (Binary64.ofInt significand) exponent with
  | some (.finite x) => some (.real ⟨negative, x.units⟩)
  | _ => none

/-- The digits of an exponent behind its sign. -/
private def takeExponent? : List Char → Option (Int × List Char)
  | '-' :: rest =>
    (naturalOf? (rest.takeWhile Char.isDigit)).map
      fun n => (-(n : Int), rest.dropWhile Char.isDigit)
  | '+' :: rest =>
    (naturalOf? (rest.takeWhile Char.isDigit)).map
      fun n => ((n : Int), rest.dropWhile Char.isDigit)
  | rest =>
    (naturalOf? (rest.takeWhile Char.isDigit)).map
      fun n => ((n : Int), rest.dropWhile Char.isDigit)

/-- A number with a fraction or an exponent, or with too many digits for an integer. Exponents
beyond 32 bits are out of range, except for zero and towards zero. -/
private def takeReal? (negative : Bool) (whole : List Char) (fraction : List Char)
    (rest : List Char) : Option (JsonNumber × List Char) :=
  let (significand, left) := appendDigits 0 whole
  let (significand, fractionLeft) := appendDigits significand fraction
  let exponent : Int := (left.length : Int) - (fraction.length - fractionLeft.length : Nat)
  let mark := match rest with
    | c :: after => if c = 'e' ∨ c = 'E' then some after else none
    | [] => none
  match mark with
  | none => (real? negative significand exponent).map (·, rest)
  | some after =>
    match takeExponent? after with
    | none => none
    | some (e, rest) =>
      if twoTo 31 ≤ e.natAbs then
        if significand ≠ 0 ∧ 0 ≤ e then none else some (.real ⟨negative, 0⟩, rest)
      else (real? negative significand (exponent + e)).map (·, rest)

/-- An integer, or a binary number where it fits no word. -/
private def takeInteger? (negative : Bool) (whole rest : List Char) :
    Option (JsonNumber × List Char) :=
  let n := Nat.ofDigitChars 10 whole 0
  if wordMax < n ∨ (negative ∧ (n = 0 ∨ twoTo 63 < n)) then takeReal? negative whole [] rest
  else some (.integer (if negative then -(n : Int) else n), rest)

/-- The number at the head of a text, and what follows it. -/
def take? (s : List Char) : Option (JsonNumber × List Char) :=
  let (negative, s) := match s with
    | '-' :: rest => (true, rest)
    | rest => (false, rest)
  let whole := s.takeWhile Char.isDigit
  let after := s.dropWhile Char.isDigit
  if whole.isEmpty || (whole.head? = some '0' && whole.length != 1) then none
  else match after with
    | '.' :: rest =>
      let fraction := rest.takeWhile Char.isDigit
      if fraction.isEmpty then none
      else takeReal? negative whole fraction (rest.dropWhile Char.isDigit)
    | 'e' :: _ | 'E' :: _ => takeReal? negative whole [] after
    | _ => takeInteger? negative whole after

end DataGrid.JsonNumber
