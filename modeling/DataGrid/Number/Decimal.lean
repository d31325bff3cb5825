import DataGrid.Number.Integer
import DataGrid.Number.Rounding

/-!
# Decimal numbers

A decimal is a sign, a mantissa of at most 96 bits and a scale of at most 28
places: it denotes `± mantissa / 10 ^ scale`. Equal values may have different
scales, and the scale is kept by what writes a decimal. `compare` is the order of
the denoted values; `sum?` and `quotient?` say when a result has a decimal form.
-/

namespace DataGrid.Number

/-- Mantissas stay below this limit, 2^96. -/
def mantissaLimit : Nat := 79228162514264337593543950336

/-- The most places behind the point. -/
def scaleLimit : Nat := 28

/-- The number `± mantissa / 10 ^ scale`. -/
structure Decimal where
  negative : Bool
  mantissa : Nat
  scale : Nat
  mantissa_lt : mantissa < mantissaLimit
  scale_le : scale ≤ scaleLimit
  deriving DecidableEq

namespace Decimal

/-- The decimal of these parts, if they are in range. -/
def of? (negative : Bool) (mantissa scale : Nat) : Option Decimal :=
  if h : mantissa < mantissaLimit ∧ scale ≤ scaleLimit then
    some ⟨negative, mantissa, scale, h.1, h.2⟩
  else none

def zero : Decimal := ⟨false, 0, 0, by decide, by decide⟩

instance : Inhabited Decimal := ⟨zero⟩

/-- The mantissa with its sign. -/
def signed (x : Decimal) : Int := if x.negative then -(x.mantissa : Int) else x.mantissa

/-- The decimal of a 64-bit word. -/
def ofInt64 (n : Int64) : Decimal :=
  ⟨n.toInt < 0, n.toInt.natAbs, 0, by
    have h₁ := n.le_toInt
    have h₂ := n.toInt_lt
    simp only [mantissaLimit]
    omega, by decide⟩

/-- The order of the denoted values. -/
def compare (x y : Decimal) : Ordering :=
  Ord.compare (x.signed * tenTo y.scale) (y.signed * tenTo x.scale)

/-- A mantissa and its scale without the trailing zeros behind the point. -/
def stripZeros (mantissa : Nat) : Nat → Nat × Nat
  | 0 => (mantissa, 0)
  | scale + 1 =>
    if mantissa % 10 = 0 then stripZeros (mantissa / 10) scale else (mantissa, scale + 1)

theorem stripZeros_le (mantissa scale : Nat) :
    (stripZeros mantissa scale).1 ≤ mantissa ∧ (stripZeros mantissa scale).2 ≤ scale := by
  induction scale generalizing mantissa with
  | zero => simp [stripZeros]
  | succ scale ih =>
    rw [stripZeros]
    split
    · have h := ih (mantissa / 10)
      omega
    · simp

/-- The same value with the least scale; zero loses its sign. -/
def normalize (x : Decimal) : Decimal :=
  if x.mantissa = 0 then zero
  else
    ⟨x.negative, (stripZeros x.mantissa x.scale).1, (stripZeros x.mantissa x.scale).2,
      Nat.lt_of_le_of_lt (stripZeros_le ..).1 x.mantissa_lt,
      Nat.le_trans (stripZeros_le ..).2 x.scale_le⟩

/-- Whether the value has no places behind the point that are not zero. -/
def isIntegral (x : Decimal) : Bool := x.mantissa % tenTo x.scale = 0

/-- The value without its places behind the point. -/
def truncate (x : Decimal) : Decimal :=
  ⟨x.negative, x.mantissa / tenTo x.scale, 0,
    Nat.lt_of_le_of_lt (Nat.div_le_self ..) x.mantissa_lt, by decide⟩

/-- Zeros appended to a mantissa while it stays in range, at most `room` of them, and how
many there are. -/
def appendZeros (mantissa : Nat) : (room : Nat) → Nat × Nat
  | 0 => (mantissa, 0)
  | room + 1 =>
    if 10 * mantissa < mantissaLimit then
      let (m, count) := appendZeros (10 * mantissa) room
      (m, count + 1)
    else (mantissa, 0)

theorem appendZeros_lt {mantissa : Nat} (room : Nat) (h : mantissa < mantissaLimit) :
    (appendZeros mantissa room).1 < mantissaLimit ∧ (appendZeros mantissa room).2 ≤ room := by
  induction room generalizing mantissa with
  | zero => simp [appendZeros, h]
  | succ room ih =>
    rw [appendZeros]
    split
    · rename_i hm
      have := ih hm
      simp only
      omega
    · simp [h]

/-- The value with `scale` places: dropped places round half away from zero, and zeros are
appended while the mantissa stays in range, so the result may have fewer places. -/
def rescale (x : Decimal) (scale : Nat) (hs : scale ≤ scaleLimit) : Decimal :=
  if x.mantissa = 0 then ⟨x.negative, 0, scale, by decide, hs⟩
  else if h : scale < x.scale then
    let kept := x.mantissa / tenTo (x.scale - scale - 1)
    ⟨x.negative, if 5 ≤ kept % 10 then kept / 10 + 1 else kept / 10, scale, by
      have hk : kept ≤ x.mantissa := Nat.div_le_self ..
      have hx := x.mantissa_lt
      simp only [mantissaLimit] at hx ⊢
      split <;> omega, hs⟩
  else
    let grown := appendZeros x.mantissa (scale - x.scale)
    ⟨x.negative, grown.1, x.scale + grown.2, (appendZeros_lt _ x.mantissa_lt).1, by
      have := (appendZeros_lt (scale - x.scale) x.mantissa_lt).2
      show x.scale + (appendZeros x.mantissa (scale - x.scale)).2 ≤ scaleLimit
      omega⟩

/-- The decimal nearest to `± mantissa / 10 ^ scale` with the most places that keep its
mantissa in range, a half going to the even one. -/
def fit? (negative : Bool) (mantissa : Nat) : (scale : Nat) → (dropped : Nat) → Option Decimal
  | 0, dropped => of? negative (divNearestEven mantissa (tenTo dropped)) 0
  | scale + 1, dropped =>
    match of? negative (divNearestEven mantissa (tenTo dropped)) (scale + 1) with
    | some x => some x
    | none => fit? negative mantissa scale (dropped + 1)

/-- The sum at the larger scale, or at the largest one below it at which the mantissa is in
range. A zero leaves the other number as it is. -/
def sum? (x y : Decimal) : Option Decimal :=
  if x.mantissa = 0 then some y
  else if y.mantissa = 0 then some x
  else
    let scale := max x.scale y.scale
    let total := x.signed * tenTo (scale - x.scale) + y.signed * tenTo (scale - y.scale)
    fit? (total < 0) total.natAbs scale 0

/-- A quotient with `scale` places; `remainder / divisor` of its last place is missing. -/
structure LongQuotient where
  quotient : Nat
  remainder : Nat
  divisor : Nat
  scale : Nat
  deriving DecidableEq, Repr

namespace LongQuotient

/-- Whether the missing part rounds up, a half to the even quotient. -/
def roundsUp (q : LongQuotient) : Bool :=
  q.divisor < 2 * q.remainder || (q.divisor == 2 * q.remainder && q.quotient % 2 == 1)

/-- The nearest whole quotient. -/
def rounded (q : LongQuotient) : Nat := if q.roundsUp then q.quotient + 1 else q.quotient

end LongQuotient

/-- The most digits that long division appends in one round. -/
def digitsPerRound : Nat := 9

/-- Long division goes on from a quotient in rounds, as long as there is a remainder. A round
appends as many digits as there is room for; the last of them is missing if the quotient leaves
its range. -/
def longDivision (divisor : Nat) :
    (rounds : Nat) → (quotient remainder scale : Nat) → LongQuotient
  | 0, q, r, scale => ⟨q, r, divisor, scale⟩
  | rounds + 1, q, r, scale =>
    let count := (appendZeros q (min digitsPerRound (scaleLimit - scale))).2
    if r = 0 ∨ count = 0 then ⟨q, r, divisor, scale⟩
    else
      let next := tenTo count * q + tenTo count * r / divisor
      let rest := tenTo count * r % divisor
      if next < mantissaLimit then longDivision divisor rounds next rest (scale + count)
      else ⟨next / 10, next % 10 * divisor + rest, 10 * divisor, scale + count - 1⟩

/-- A mantissa and its scale without `count` places behind the point, if these are zeros. -/
def stripPlaces (count : Nat) (m : Nat × Nat) : Nat × Nat :=
  if count ≤ m.2 ∧ m.1 % tenTo count = 0 then (m.1 / tenTo count, m.2 - count) else m

/-- `rounds` times eight zeros off a mantissa, as long as it is a multiple of 2^32. -/
def stripGroups : (rounds : Nat) → Nat × Nat → Nat × Nat
  | 0, m => m
  | rounds + 1, m =>
    if m.1 % twoTo 32 = 0 then stripGroups rounds (stripPlaces 8 m) else m

/-- The zeros that long division has appended in vain. Groups of eight are taken off a multiple
of 2^32 only, and then at most seven zeros, so that some may stay. -/
def stripAppended (m : Nat × Nat) : Nat × Nat :=
  stripPlaces 1 (stripPlaces 2 (stripPlaces 4 (stripGroups scaleLimit m)))

/-- The quotient by a whole number that is not zero. An exact quotient of the mantissas keeps
the scale; any other is written with as many places as long division finds, the last one rounded
half to even. -/
def quotient? (x : Decimal) (divisor : Nat) : Option Decimal :=
  if divisor = 0 then none
  else if x.mantissa = 0 then some zero
  else if x.mantissa % divisor = 0 then of? x.negative (x.mantissa / divisor) x.scale
  else
    let q := longDivision divisor scaleLimit (x.mantissa / divisor) (x.mantissa % divisor) x.scale
    (fit? x.negative q.rounded q.scale 0).bind fun y =>
      let stripped := stripAppended (y.mantissa, y.scale)
      of? (y.negative && stripped.1 != 0) stripped.1 stripped.2

end Decimal

end DataGrid.Number
