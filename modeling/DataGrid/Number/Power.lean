/-!
# Powers of two and of ten

The units of binary numbers are powers of two, and the scales of decimals and the
exponents of numerals are powers of ten.
-/

namespace DataGrid.Number

/-- The power of ten with `n` zeros. -/
def tenTo (n : Nat) : Nat := Nat.pow 10 n

/-- The least number with more than `n` binary digits. -/
def twoTo (n : Nat) : Nat := Nat.pow 2 n

theorem tenTo_succ (n : Nat) : tenTo (n + 1) = 10 * tenTo n := Nat.mul_comm ..

theorem twoTo_succ (n : Nat) : twoTo (n + 1) = 2 * twoTo n := Nat.mul_comm ..

theorem tenTo_add (m n : Nat) : tenTo (m + n) = tenTo m * tenTo n := Nat.pow_add 10 m n

theorem twoTo_add (m n : Nat) : twoTo (m + n) = twoTo m * twoTo n := Nat.pow_add 2 m n

theorem twoTo_lt {m n : Nat} (h : m < n) : twoTo m < twoTo n := Nat.pow_lt_pow_right (by decide) h

theorem tenTo_le {m n : Nat} (h : m ≤ n) : tenTo m ≤ tenTo n := Nat.pow_le_pow_right (by decide) h

theorem tenTo_pos (n : Nat) : 0 < tenTo n := Nat.pow_pos (by decide)

theorem twoTo_pos (n : Nat) : 0 < twoTo n := Nat.pow_pos (by decide)

end DataGrid.Number
