import DataGrid.Number.Binary64
import DataGrid.Text.Digits

/-!
# Decimal digits of a binary64 number

`shortest` gives the fewest decimal digits that read back as the number: every
real number closer to it than to its neighbours reads back, and so do the two
midpoints when the mantissa is even. Of two texts of that length the one nearer
to the exact value is taken, and of two equally near ones the one that the `Tie`
of the caller's layout chooses. `rounded` gives a fixed number of significant
digits of the exact value, a half going to the even digit.

Both work on exact counts of units, and leave the layout to their callers.
-/

namespace DataGrid.Number

open DataGrid.Text

/-- The choice between two neighbours on a decimal grid that are equally near. -/
inductive Tie where
  /-- The neighbour of greater magnitude. -/
  | up
  /-- The neighbour with an even last digit. -/
  | toEven
  deriving DecidableEq, Repr

/-- Whether a number halfway between `lower` and `lower + 1` goes to `lower`. -/
def Tie.goesDown (tie : Tie) (lower : Nat) : Bool :=
  match tie with
  | up => false
  | toEven => lower % 2 = 0

/-- The number `digits * 10 ^ exponent`. -/
structure Digits where
  digits : Nat
  exponent : Int
  deriving DecidableEq, Repr

namespace Digits

/-- Trailing zeros moved into the exponent. -/
def strip (fuel : Nat) (d : Digits) : Digits :=
  match fuel with
  | 0 => d
  | fuel + 1 =>
    if d.digits ≠ 0 ∧ d.digits % 10 = 0 then strip fuel ⟨d.digits / 10, d.exponent + 1⟩ else d

end Digits

namespace Finite

/-- The exponent of the first significant decimal digit of a number that is not zero. -/
def decimalExponent (x : Finite) : Int :=
  ((digitsOf (x.units * tenTo 400 / unitsInOne)).length : Int) - 401

/-- The number of steps of size `10 ^ exponent` in `num / den` units, as a quotient. -/
private def stepsOf (num den : Nat) (exponent : Int) : Nat × Nat :=
  if 0 ≤ exponent then (num, den * unitsInOne * tenTo exponent.toNat)
  else (num * tenTo (-exponent).toNat, den * unitsInOne)

/-- The interval of the reals that read back as `x`, in quarter units, and whether its
ends do so too. -/
private def readBackQuarters (x : Finite) : Nat × Nat × Bool :=
  let shift := binarySize x.units - precision
  let mantissa := x.units / twoTo shift
  let below :=
    if 0 < shift ∧ mantissa = twoTo (precision - 1) then twoTo (shift - 1) else twoTo shift
  (4 * x.units - 2 * below, 4 * x.units + 2 * twoTo shift, mantissa % 2 = 0)

/-- The point nearest to `x` on the decimal grid with `count` significant digits, among
its two neighbours there that read back. -/
private def onGrid? (x : Finite) (tie : Tie) (count : Nat) : Option Digits :=
  let exponent := x.decimalExponent - count + 1
  let (low, high, closed) := x.readBackQuarters
  let (num, den) := stepsOf x.units 1 exponent
  let (lowNum, quarterDen) := stepsOf low 4 exponent
  let (highNum, _) := stepsOf high 4 exponent
  let readsBack (steps : Nat) : Bool :=
    let point := steps * quarterDen
    if closed then lowNum ≤ point && point ≤ highNum else lowNum < point && point < highNum
  let lower := num / den
  let upper := if num % den = 0 then lower else lower + 1
  match readsBack lower, readsBack upper with
  | false, false => none
  | true, false => some ⟨lower, exponent⟩
  | false, true => some ⟨upper, exponent⟩
  | true, true =>
    let r := num % den
    if 2 * r < den ∨ (2 * r = den ∧ tie.goesDown lower) then some ⟨lower, exponent⟩
    else some ⟨upper, exponent⟩

/-- The first decimal grid with a point that reads back, from `count` digits on. -/
private def firstGrid (x : Finite) (tie : Tie) : (fuel count : Nat) → Digits
  | 0, count => ⟨x.units / unitsInOne, count⟩
  | fuel + 1, count =>
    match x.onGrid? tie count with
    | some d => d
    | none => firstGrid x tie fuel (count + 1)

/-- The fewest decimal digits that read back as the magnitude of `x`, without trailing
zeros. Seventeen digits always do. -/
def shortest (x : Finite) (tie : Tie) : Digits :=
  if x.units = 0 then ⟨0, 0⟩ else (x.firstGrid tie 17 1).strip 20

/-- `count` significant digits of the magnitude of `x`, and the exponent of the first of
them. -/
def rounded (x : Finite) (count : Nat) : Nat × Int :=
  if x.units = 0 then (0, 0)
  else
    let exponent := x.decimalExponent
    let (num, den) := stepsOf x.units 1 (exponent - count + 1)
    let digits := divNearestEven num den
    if digits < tenTo count then (digits, exponent) else (digits / 10, exponent + 1)

end Finite

end DataGrid.Number
