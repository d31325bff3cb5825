/-!
# Percent-encoded text

A percent sign with two hexadecimal digits stands for a byte. `percentDecode`
replaces these and keeps every other byte, and `decoded?` reads the result as
UTF-8.
-/

namespace DataGrid.Text

/-- The value of a byte that is a hexadecimal digit. -/
def hexValue? (b : UInt8) : Option UInt8 :=
  if 48 ≤ b ∧ b ≤ 57 then some (b - 48)
  else if 65 ≤ b ∧ b ≤ 70 then some (b - 55)
  else if 97 ≤ b ∧ b ≤ 102 then some (b - 87)
  else none

/-- The bytes that a percent-encoded text stands for. -/
def percentDecode : List UInt8 → List UInt8
  | [] => []
  | 37 :: high :: low :: rest =>
    match hexValue? high, hexValue? low with
    | some h, some l => (h * 16 + l) :: percentDecode rest
    | _, _ => 37 :: percentDecode (high :: low :: rest)
  | b :: rest => b :: percentDecode rest

/-- The text that a percent-encoded text stands for, if its bytes are UTF-8. -/
def decoded? (s : String) : Option String :=
  String.fromUTF8? ⟨(percentDecode s.toByteArray.toList).toArray⟩

end DataGrid.Text
