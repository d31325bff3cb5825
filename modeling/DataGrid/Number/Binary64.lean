import DataGrid.Number.Rounding

/-!
# Binary64 numbers

A finite binary64 number is a whole number of units of 2^-1074 with a sign, so
zero has two forms. Each operation takes the exact result and rounds it once, to
the nearest number with 53 binary digits and a half to the even one. A count of
2^2098 units or more is out of range and becomes infinite.

Order is the order of the exact values: it does not tell the two zeros apart, and
nothing is comparable with `nan`.
-/

namespace DataGrid.Number

/-- A finite binary64 number: a sign and a count of units of 2^-1074. -/
structure Finite where
  negative : Bool
  units : Nat
  deriving DecidableEq, Repr, Inhabited

/-- A binary64 number. -/
inductive Binary64 where
  | nan
  | infinite (negative : Bool)
  | finite (x : Finite)
  deriving DecidableEq, Repr, Inhabited

/-- The exponent of the unit, 2^-1074. -/
def unitExponent : Nat := 1074

/-- The number of units in one. -/
def unitsInOne : Nat := twoTo unitExponent

/-- Counts from here on are out of range. -/
def unitsLimit : Nat := twoTo 2098

/-- The binary digits that a number keeps. -/
def precision : Nat := 53

namespace Finite

/-- The value in units, with its sign. -/
def signed (x : Finite) : Int := if x.negative then -(x.units : Int) else x.units

/-- The order of the exact values. -/
def compare (x y : Finite) : Ordering := Ord.compare x.signed y.signed

/-- The binary64 number nearest to an integer. -/
def ofInt (n : Int) : Finite := ⟨n < 0, nearestCount precision (n.natAbs * unitsInOne) 1⟩

def neg (x : Finite) : Finite := ⟨!x.negative, x.units⟩

/-- The value as `mantissa * 2 ^ exponent` with a mantissa of 53 binary digits, or
with the least exponent. -/
def mantissaExponent (x : Finite) : Nat × Int :=
  let shift := binarySize x.units - precision
  (x.units / twoTo shift, (shift : Int) - unitExponent)

end Finite

namespace Binary64

/-- The number nearest to `num / den` units. -/
def ofUnits (negative : Bool) (num den : Nat) : Binary64 :=
  let count := nearestCount precision num den
  if count < unitsLimit then .finite ⟨negative, count⟩ else .infinite negative

/-- The number nearest to `num / den`. -/
def ofRatio (negative : Bool) (num den : Nat) : Binary64 :=
  ofUnits negative (num * unitsInOne) den

/-- The number nearest to an integer. -/
def ofInt (n : Int) : Binary64 := ofRatio (n < 0) n.natAbs 1

def zero : Binary64 := .finite ⟨false, 0⟩

def isFinite : Binary64 → Bool
  | .finite _ => true
  | _ => false

def neg : Binary64 → Binary64
  | .nan => .nan
  | .infinite negative => .infinite (!negative)
  | .finite x => .finite x.neg

/-- A sum of opposite numbers is the positive zero; two negative zeros stay negative. -/
def add : Binary64 → Binary64 → Binary64
  | .nan, _ | _, .nan => .nan
  | .infinite a, .infinite b => if a = b then .infinite a else .nan
  | .infinite a, .finite _ => .infinite a
  | .finite _, .infinite b => .infinite b
  | .finite x, .finite y =>
    let sum := x.signed + y.signed
    if sum = 0 then .finite ⟨x.negative && y.negative, 0⟩
    else ofUnits (sum < 0) sum.natAbs 1

def mul : Binary64 → Binary64 → Binary64
  | .nan, _ | _, .nan => .nan
  | .infinite a, .infinite b => .infinite (a != b)
  | .infinite a, .finite y => if y.units = 0 then .nan else .infinite (a != y.negative)
  | .finite x, .infinite b => if x.units = 0 then .nan else .infinite (x.negative != b)
  | .finite x, .finite y => ofUnits (x.negative != y.negative) (x.units * y.units) unitsInOne

def div : Binary64 → Binary64 → Binary64
  | .nan, _ | _, .nan => .nan
  | .infinite _, .infinite _ => .nan
  | .infinite a, .finite y => .infinite (a != y.negative)
  | .finite x, .infinite b => .finite ⟨x.negative != b, 0⟩
  | .finite x, .finite y =>
    if y.units = 0 then
      if x.units = 0 then .nan else .infinite (x.negative != y.negative)
    else ofUnits (x.negative != y.negative) (x.units * unitsInOne) y.units

/-- The nearest integral number, a half going away from zero. -/
def round : Binary64 → Binary64
  | .finite x => .finite ⟨x.negative, (2 * x.units + unitsInOne) / (2 * unitsInOne) * unitsInOne⟩
  | x => x

/-- The order of the exact values, infinities at the ends; none with `nan`. -/
def compare? : Binary64 → Binary64 → Option Ordering
  | .nan, _ | _, .nan => none
  | .finite x, .finite y => some (x.compare y)
  | .infinite a, .infinite b => some (Ord.compare b a)
  | .infinite a, .finite _ => some (if a then .lt else .gt)
  | .finite _, .infinite b => some (if b then .gt else .lt)

end Binary64

end DataGrid.Number
