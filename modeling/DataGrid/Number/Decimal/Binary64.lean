import DataGrid.Number.Binary64
import DataGrid.Number.Decimal

/-!
# Decimals and binary64 numbers

`Decimal.toBinary64` adds the whole part and the fraction as binary64 numbers and
rounds the sum to the decimal's scale. `Decimal.ofBinary64?` trades the powers of
two of a binary64 number for powers of ten, keeps at most 28 places and then no
more digits than 52 binary digits can tell apart, and drops trailing zeros.
-/

namespace DataGrid.Number

namespace Decimal

/-- The binary64 number of a decimal. A decimal without places behind the point is rounded
once, and its zero has no sign. -/
def toBinary64 (x : Decimal) : Binary64 :=
  if x.scale = 0 then Binary64.ofInt x.signed
  else
    let whole := Binary64.ofInt (x.mantissa / tenTo x.scale : Nat)
    let power := Binary64.ofInt (tenTo x.scale : Nat)
    let fraction := x.mantissa % tenTo x.scale
    let magnitude :=
      if fraction = 0 then whole
      else
        let sum := whole.add ((Binary64.ofInt fraction).div power)
        (sum.mul power).round.div power
    if x.negative then magnitude.neg else magnitude

/-- A mantissa and a power of ten on the way from a binary64 number. -/
structure Scaled where
  mantissa : Nat
  exponent : Int

/-- Trades `count` halvings for powers of ten: an even mantissa is halved, an odd one is
multiplied by five, and one that would leave the range by that is halved with loss. -/
def tradeHalves : (count : Nat) → Scaled → Scaled
  | 0, s => s
  | count + 1, s =>
    tradeHalves count <|
      if s.mantissa % 2 = 0 then ⟨s.mantissa / 2, s.exponent + 1⟩
      else if 5 * s.mantissa < mantissaLimit then ⟨5 * s.mantissa, s.exponent⟩
      else ⟨s.mantissa / 2, s.exponent + 1⟩

/-- Trades `count` doublings for powers of ten: a mantissa with a free top bit is doubled, any
other is divided by five with loss. -/
def tradeDoubles : (count : Nat) → Scaled → Scaled
  | 0, s => s
  | count + 1, s =>
    tradeDoubles count <|
      if s.mantissa < twoTo 95 then ⟨2 * s.mantissa, s.exponent - 1⟩
      else ⟨s.mantissa / 5, s.exponent⟩

/-- The mantissa times `10 ^ count`, if it stays in range. -/
def multiplyIn (mantissa count : Nat) : Option Nat :=
  let m := mantissa * tenTo count
  if m < mantissaLimit then some m else none

/-- The last digit dropped, a half rounding up. -/
def dropDigit (mantissa : Nat) : Nat :=
  if 5 ≤ mantissa % 10 then mantissa / 10 + 1 else mantissa / 10

/-- Digits dropped until at most `scaleLimit` places are left. -/
def dropPlaces : (excess : Nat) → Nat × Nat → Nat × Nat
  | 0, s => s
  | excess + 1, (mantissa, scale) =>
    if mantissa / 10 = 0 then (0, 0) else dropPlaces excess (dropDigit mantissa, scale - 1)

/-- Digits dropped until the mantissa has at most 52 binary digits or no place is left. -/
def dropExcess (mantissa : Nat) : (scale : Nat) → Nat × Nat
  | 0 => (mantissa, 0)
  | scale + 1 =>
    if twoTo 52 ≤ mantissa then dropExcess (dropDigit mantissa) scale else (mantissa, scale + 1)

/-- The decimal of a mantissa and a power of ten. -/
def settle? (negative : Bool) (s : Scaled) : Option Decimal :=
  if 0 ≤ s.exponent then
    (multiplyIn s.mantissa s.exponent.toNat).bind fun m => of? negative m 0
  else
    let scale := (-s.exponent).toNat
    let (m, scale) := dropPlaces (scale - scaleLimit) (s.mantissa, scale)
    let (m, scale) := dropExcess m scale
    let (m, scale) := stripZeros m scale
    of? negative m scale

/-- The decimal of a finite binary64 number, unless it is out of range. -/
def ofFinite? (x : Finite) : Option Decimal :=
  if x.units = 0 then of? x.negative 0 0
  else
    let s : Scaled := ⟨x.mantissaExponent.1, x.mantissaExponent.2⟩
    settle? x.negative <|
      if s.exponent < 0 then tradeHalves (-s.exponent).toNat s
      else tradeDoubles s.exponent.toNat s

/-- The decimal of a binary64 number, unless it is not finite or out of range. -/
def ofBinary64? : Binary64 → Option Decimal
  | .finite x => ofFinite? x
  | _ => none

end Decimal

end DataGrid.Number
