import DataGrid.Number.Decimal

/-!
# Decimal numerals

A plain numeral is an optional sign and digits with at most one point; `_` may
stand anywhere behind the first digit. Digits behind the point that do not fit
the scale or the mantissa are dropped, and only the first of them decides the
rounding. A scientific numeral moves the point of a plain one by an exponent of at
most 28 places; what a move to the left takes past the last place is rounded off.
The text written for a decimal keeps its scale and its sign, also those of a zero.
-/

namespace DataGrid.Number

open DataGrid.Text

namespace Decimal

/-- Whether all characters are digits or `_`. -/
def isDroppable (s : List Char) : Bool := s.all fun c => c.isDigit || c = '_'

/-- The mantissa and scale rounded by the first dropped digit: a digit from 5 on rounds up, and
a mantissa that this takes out of range loses one more place. -/
def roundedBy (mantissa scale digit : Nat) : Option (Nat × Nat) :=
  if digit < 5 then some (mantissa, scale)
  else if mantissa + 1 < mantissaLimit then some (mantissa + 1, scale)
  else if scale = 0 then none
  else some ((mantissa + 5) / 10, scale - 1)

/-- The mantissa and scale when the rest of the numeral is dropped: only digits and `_` may
stand in it, and its first digit rounds. -/
def roundedAt (mantissa scale : Nat) (dropped : List Char) : Option (Nat × Nat) :=
  if isDroppable dropped then
    match dropped.findSome? digit? with
    | some digit => roundedBy mantissa scale digit
    | none => some (mantissa, scale)
  else none

/-- The digits of a numeral behind its sign. `point` and `begun` tell whether the point and a
digit have been read. -/
def digits? (point begun : Bool) (mantissa scale : Nat) : List Char → Option (Nat × Nat)
  | [] => if begun then some (mantissa, scale) else none
  | c :: rest =>
    if point ∧ scaleLimit ≤ scale then roundedAt mantissa scale (c :: rest)
    else match digit? c with
      | some digit =>
        let next := 10 * mantissa + digit
        if next < mantissaLimit then
          digits? point true next (if point then scale + 1 else scale) rest
        else if point then roundedAt mantissa scale (c :: rest)
        else none
      | none =>
        if c = '.' ∧ !point then digits? true begun mantissa scale rest
        else if c = '_' ∧ begun then digits? point begun mantissa scale rest
        else none

/-- The decimal of an unsigned numeral under a sign. -/
def signed? (negative : Bool) (s : List Char) : Option Decimal :=
  (digits? false false 0 0 s).bind fun (mantissa, scale) =>
    of? (negative && mantissa != 0) mantissa scale

/-- The decimal that a plain numeral denotes. A zero has no sign. -/
def ofPlain? : List Char → Option Decimal
  | '+' :: rest => signed? false rest
  | '-' :: rest => signed? true rest
  | rest => signed? false rest

/-- A 32-bit count with an optional plus sign. -/
def exponent? (s : List Char) : Option Nat :=
  let digits := match s with
    | '+' :: rest => rest
    | rest => rest
  (naturalOf? digits).filter (· < twoTo 32)

/-- `x` with its point moved `places` to the left. What the scale has no room for is dropped, a
half rounded away from zero, and the sign stays. -/
def shiftLeft? (x : Decimal) (places : Nat) : Option Decimal :=
  if scaleLimit < places then none
  else
    let kept :=
      if x.scale + places ≤ scaleLimit then x
      else x.rescale (scaleLimit - places) (Nat.sub_le ..)
    of? kept.negative kept.mantissa (kept.scale + places)

/-- `x` with its point moved `places` to the right. -/
def shiftRight? (x : Decimal) (places : Nat) : Option Decimal :=
  if places ≤ x.scale then of? x.negative x.mantissa (x.scale - places)
  else if scaleLimit < places then none
  else of? x.negative (x.mantissa * tenTo (places - x.scale)) 0

/-- The decimal that a scientific numeral denotes. -/
def ofScientific? (s : List Char) : Option Decimal :=
  let isMark (c : Char) : Bool := c = 'e' || c = 'E'
  match s.dropWhile (!isMark ·) with
  | [] => none
  | _ :: exponent =>
    (ofPlain? (s.takeWhile (!isMark ·))).bind fun base =>
      match exponent with
      | '-' :: places => (exponent? places).bind (shiftLeft? base)
      | places => (exponent? places).bind (shiftRight? base)

/-- The decimal that a plain or else a scientific numeral denotes. -/
def ofChars? (s : List Char) : Option Decimal :=
  match ofPlain? s with
  | some x => some x
  | none => ofScientific? s

/-- A run of digits in front of the point is read as its value where that is in range. -/
theorem digits?_of_isDigit {s : List Char} (hs : ∀ c ∈ s, c.isDigit = true) {begun : Bool}
    {mantissa : Nat} (hbegun : begun = true ∨ s ≠ [])
    (hlt : Nat.ofDigitChars 10 s mantissa < mantissaLimit) :
    digits? false begun mantissa 0 s = some (Nat.ofDigitChars 10 s mantissa, 0) := by
  induction s generalizing begun mantissa with
  | nil =>
    have hstarted : begun = true := hbegun.resolve_right fun h => h rfl
    rw [digits?, if_pos hstarted]
    rfl
  | cons c s ih =>
    have hc : c.isDigit = true := hs c List.mem_cons_self
    rw [Nat.ofDigitChars_cons] at hlt ⊢
    have hle := le_ofDigitChars s (10 * mantissa + (c.toNat - '0'.toNat))
    have hrest := ih (fun d hd => hs d (List.mem_cons_of_mem c hd)) (.inl rfl) hlt
    rw [digits?, if_neg (fun h => Bool.false_ne_true h.1), digit?, if_pos hc]
    simp only
    rw [if_pos (Nat.lt_of_le_of_lt hle hlt), if_neg Bool.false_ne_true]
    exact hrest

theorem signed?_digitsOf (negative : Bool) {n : Nat} (h : n < mantissaLimit) :
    ∃ x, signed? negative (digitsOf n) = some x ∧
      x.signed = (if negative then -(n : Int) else n) ∧ x.scale = 0 := by
  have hdigits : digits? false false 0 0 (digitsOf n) = some (n, 0) := by
    have hvalue := ofDigitChars_digitsOf n
    rw [digits?_of_isDigit (fun _ => isDigit_of_mem_digitsOf) (.inr (digitsOf_ne_nil n))
      (hvalue.symm ▸ h), hvalue]
  refine ⟨⟨negative && n != 0, n, 0, h, by decide⟩, ?_, ?_, rfl⟩
  · unfold signed?
    rw [hdigits]
    exact dif_pos ⟨h, by decide⟩
  · unfold signed
    cases negative with
    | false => rfl
    | true =>
      cases n with
      | zero => rfl
      | succ n => rfl

/-- The text of an integer is read as the integer where that is in range. -/
theorem ofChars?_integerText {n : Int} (h : n.natAbs < mantissaLimit) :
    ∃ x, ofChars? (integerText n) = some x ∧ x.signed = n ∧ x.scale = 0 := by
  have hplain : ∃ x, ofPlain? (integerText n) = some x ∧ x.signed = n ∧ x.scale = 0 := by
    unfold integerText
    by_cases hn : n < 0
    · obtain ⟨x, hx, hsigned, hscale⟩ := signed?_digitsOf true h
      rw [if_pos hn]
      rw [if_pos rfl] at hsigned
      exact ⟨x, hx, by omega, hscale⟩
    · obtain ⟨x, hx, hsigned, hscale⟩ := signed?_digitsOf false h
      rw [if_neg hn]
      rw [if_neg Bool.false_ne_true] at hsigned
      refine ⟨x, ?_, by omega, hscale⟩
      have hfirst : ∀ c ∈ digitsOf n.natAbs, c.isDigit = true := fun _ => isDigit_of_mem_digitsOf
      unfold ofPlain?
      split
      · rename_i heq
        exact absurd (hfirst _ (heq ▸ List.mem_cons_self)) (by decide)
      · rename_i heq
        exact absurd (hfirst _ (heq ▸ List.mem_cons_self)) (by decide)
      · exact hx
  obtain ⟨x, hx, hvalue⟩ := hplain
  refine ⟨x, ?_, hvalue⟩
  unfold ofChars?
  rw [hx]

/-- The digits with the scale's places behind the point. -/
def chars (x : Decimal) : List Char :=
  let digits := paddedDigits (x.scale + 1) x.mantissa
  let body :=
    if x.scale = 0 then digits
    else digits.take (digits.length - x.scale) ++ '.' :: digits.drop (digits.length - x.scale)
  if x.negative then '-' :: body else body

def text (x : Decimal) : String := String.ofList x.chars

end Decimal

end DataGrid.Number
