/-!
# Decimal digits

Reading runs of ASCII digits as natural numbers, and writing numbers with a least
width. `naturalOf?` refuses the empty run, and reads no sign.
-/

namespace DataGrid.Text

/-- The value of an ASCII digit. -/
def digit? (c : Char) : Option Nat :=
  if c.isDigit then some (c.toNat - '0'.toNat) else none

/-- The number that a run of ASCII digits denotes; the empty run denotes none. -/
def naturalOf? (s : List Char) : Option Nat :=
  if s.isEmpty || !s.all Char.isDigit then none else some (Nat.ofDigitChars 10 s 0)

/-- The digits at the head of a text, at most `limit` of them, and what follows. -/
def spanDigits (limit : Nat) (s : List Char) : List Char × List Char :=
  match limit, s with
  | 0, s => ([], s)
  | _ + 1, [] => ([], [])
  | limit + 1, c :: rest =>
    if c.isDigit then
      let (digits, after) := spanDigits limit rest
      (c :: digits, after)
    else ([], c :: rest)

/-- The decimal digits of `n`, without leading zeros. -/
def digitsOf (n : Nat) : List Char := Nat.toDigits 10 n

/-- Fill characters in front of a text up to `width` characters. -/
def padStart (fill : Char) (width : Nat) (s : List Char) : List Char :=
  List.replicate (width - s.length) fill ++ s

/-- Fill characters behind a text up to `width` characters. -/
def padEnd (fill : Char) (width : Nat) (s : List Char) : List Char :=
  s ++ List.replicate (width - s.length) fill

/-- The digits of `n` behind as many zeros as fill `width` places. -/
def paddedDigits (width n : Nat) : List Char := padStart '0' width (digitsOf n)

/-- The ASCII digits are ten characters in a row. -/
theorem isDigit_bounds {c : Char} (h : c.isDigit = true) : 48 ≤ c.toNat ∧ c.toNat ≤ 57 := by
  simp only [Char.isDigit, Bool.and_eq_true, decide_eq_true_eq, UInt32.le_iff_toNat_le] at h
  exact h

theorem isDigit_of_mem_digitsOf {n : Nat} {c : Char} (h : c ∈ digitsOf n) : c.isDigit = true :=
  Nat.isDigit_of_mem_toDigits (by decide) (by decide) h

theorem digitsOf_ne_nil (n : Nat) : digitsOf n ≠ [] := Nat.toDigits_ne_nil

theorem ofDigitChars_digitsOf (n : Nat) : Nat.ofDigitChars 10 (digitsOf n) 0 = n :=
  Nat.ofDigitChars_toDigits (by decide) (by decide)

/-- Further digits do not lessen a number. -/
theorem le_ofDigitChars (s : List Char) (n : Nat) : n ≤ Nat.ofDigitChars 10 s n := by
  induction s generalizing n with
  | nil => exact Nat.le_refl n
  | cons c s ih =>
    have hrest := ih (10 * n + (c.toNat - '0'.toNat))
    rw [Nat.ofDigitChars_cons]
    omega

end DataGrid.Text
