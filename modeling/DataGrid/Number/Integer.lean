import DataGrid.Number.Power
import DataGrid.Text.Digits

/-!
# Signed integers as text

An integer literal is an optional sign and one or more ASCII digits, of any
length. `integerOf?` reads its value and `wordOf?` accepts only the values of a
two's complement word.
-/

namespace DataGrid.Number

open DataGrid.Text

/-- The value of an integer literal. -/
def integerOf? : List Char → Option Int
  | '+' :: digits => (naturalOf? digits).map Int.ofNat
  | '-' :: digits => (naturalOf? digits).map fun n => -Int.ofNat n
  | digits => (naturalOf? digits).map Int.ofNat

/-- Whether `n` is a value of a signed word of `bits` bits. -/
def fitsWord (bits : Nat) (n : Int) : Bool :=
  -(twoTo (bits - 1) : Int) ≤ n && n < (twoTo (bits - 1) : Int)

/-- The value of an integer literal that a signed word of `bits` bits can hold. -/
def wordOf? (bits : Nat) (s : List Char) : Option Int :=
  (integerOf? s).filter (fitsWord bits)

/-- An integer literal that is a value of a 64-bit word. -/
def int64Of? (s : List Char) : Option Int64 := (wordOf? 64 s).map Int64.ofInt

/-- A 64-bit word with the value `n`, if there is one. -/
def int64At? (n : Int) : Option Int64 :=
  if fitsWord 64 n then some (Int64.ofInt n) else none

theorem toInt_ofInt_of_fitsWord {n : Int} (h : fitsWord 64 n) : (Int64.ofInt n).toInt = n := by
  have hlimit : twoTo (64 - 1) = 9223372036854775808 := rfl
  simp only [fitsWord, hlimit, Bool.and_eq_true, decide_eq_true_eq] at h
  exact Int64.toInt_ofInt_of_le (by omega) (by omega)

/-- The most that a 64-bit word counts to. -/
def countLimit : Nat := twoTo 63 - 1

/-- A count as a 64-bit word. No list in memory is longer than such a word counts to. -/
def wordOfCount (n : Nat) : Int64 := Int64.ofNat (min n countLimit)

theorem toInt_wordOfCount (n : Nat) : (wordOfCount n).toInt = min n countLimit := by
  have hlimit : countLimit = 9223372036854775807 := rfl
  exact Int64.toInt_ofNat_of_lt (by omega)

/-- The decimal digits of an integer behind its minus sign, if it has one. -/
def integerText (n : Int) : List Char :=
  if n < 0 then '-' :: digitsOf n.natAbs else digitsOf n.natAbs

/-- A 64-bit sum, if the exact sum is a value of a 64-bit word. -/
def checkedAdd (a b : Int64) : Option Int64 := int64At? (a.toInt + b.toInt)

end DataGrid.Number
