import DataGrid.Number.Binary64.Shortest

/-!
# Writing binary64 numbers

Three layouts. `positional` is the fewest digits that read back without an
exponent, whatever the magnitude; of two equally near texts it is the one of
greater magnitude, so 2^50 + 1/4 ends in `.3`. `document` is the layout of data
documents: the fewest digits with at least one place after the point, and an
exponent from 10^16 on and below 10^-5; of two equally near texts it is the even
one. `scientific` has a fixed number of places after the point and a signed
exponent of at least two digits.
-/

namespace DataGrid.Number

open DataGrid.Text

/-- `digits * 10 ^ exponent` without an exponent; a whole number has no point. -/
def Digits.positional (d : Digits) : List Char :=
  let text := digitsOf d.digits
  if 0 ≤ d.exponent then
    if d.digits = 0 then text else text ++ List.replicate d.exponent.toNat '0'
  else
    let places := (-d.exponent).toNat
    let text := padStart '0' (places + 1) text
    text.take (text.length - places) ++ '.' :: text.drop (text.length - places)

/-- The first digit, a point and the others if there are others. -/
private def pointed : List Char → List Char
  | [] => []
  | [c] => [c]
  | c :: rest => c :: '.' :: rest

private def withSign (negative : Bool) (s : List Char) : List Char :=
  if negative then '-' :: s else s

namespace Finite

/-- The fewest digits that read back, without an exponent. A tie goes up. -/
def positional (x : Finite) : List Char := withSign x.negative (x.shortest .up).positional

/-- The layout of data documents. A tie goes to the even digit. -/
def document (x : Finite) : List Char :=
  let d := x.shortest .toEven
  let digits := digitsOf d.digits
  let exponent := d.exponent + digits.length - 1
  let body :=
    if x.units = 0 then "0.0".toList
    else if -5 ≤ exponent ∧ exponent < 16 then
      if 0 ≤ d.exponent then d.positional ++ ".0".toList else d.positional
    else
      pointed digits ++ 'e' :: (if exponent < 0 then '-' else '+') :: digitsOf exponent.natAbs
  withSign x.negative body

/-- `places` digits behind the point of the first significant digit, and an exponent with
its sign and at least two digits. -/
def scientific (x : Finite) (places : Nat) : List Char :=
  let (digits, exponent) := x.rounded (places + 1)
  let mantissa := pointed (paddedDigits (places + 1) digits)
  withSign x.negative
    (mantissa ++ 'e' :: (if exponent < 0 then '-' else '+') :: paddedDigits 2 exponent.natAbs)

end Finite

/-- The fewest digits that read back, without an exponent; `NaN`, `inf` and `-inf`. -/
def Binary64.text : Binary64 → String
  | .nan => "NaN"
  | .infinite negative => if negative then "-inf" else "inf"
  | .finite x => String.ofList x.positional

end DataGrid.Number
