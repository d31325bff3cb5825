import DataGrid.Text.Percent
import DataGrid.Text.Blank

/-!
# Percent encoding

`percentEncode` writes the UTF-8 bytes of a text: letters, digits and four marks of ASCII as
they are, every other byte as a percent sign and two hexadecimal digits. Decoding gives the text
back, and an encoded text has no blanks and none of the marks that part a query string.
-/

namespace DataGrid.Text

/-! ## Bytes -/

/-- ASCII letters, ASCII digits, `-`, `_`, `.` and `~`. -/
def isUnreserved (b : UInt8) : Bool :=
  (65 ≤ b && b ≤ 90) || (97 ≤ b && b ≤ 122) || (48 ≤ b && b ≤ 57) ||
    b == 45 || b == 95 || b == 46 || b == 126

def hexDigit (n : UInt8) : UInt8 := if n < 10 then 48 + n else 55 + n

def encodeByte (b : UInt8) : List UInt8 :=
  if isUnreserved b then [b] else [37, hexDigit (b / 16), hexDigit (b % 16)]

def encodedBytes (s : String) : List UInt8 := s.toByteArray.toList.flatMap encodeByte

/-- A text with its bytes percent-encoded. -/
def percentEncode (s : String) : List Char := (encodedBytes s).map Char.ofUInt8

theorem forall_byte {k : Nat} {p : UInt8 → Prop} (h : ∀ n < k, p (UInt8.ofNat n)) :
    ∀ b : UInt8, b.toNat < k → p b := by
  intro b hb
  have hp := h b.toNat hb
  rwa [UInt8.ofNat_toNat] at hp

theorem hexValue?_hexDigit : ∀ n : UInt8, n.toNat < 16 → hexValue? (hexDigit n) = some n :=
  forall_byte (by decide)

theorem toNat_high_lt (b : UInt8) : (b / 16).toNat < 16 := by
  have hb := b.toNat_lt
  rw [UInt8.toNat_div]
  change b.toNat / 16 < 16
  omega

theorem toNat_low_lt (b : UInt8) : (b % 16).toNat < 16 := by
  rw [UInt8.toNat_mod]
  exact Nat.mod_lt _ (by decide)

theorem high_mul_add_low (b : UInt8) : b / 16 * 16 + b % 16 = b := by
  have hb := b.toNat_lt
  rw [← UInt8.toNat_inj, UInt8.toNat_add, UInt8.toNat_mul, UInt8.toNat_div, UInt8.toNat_mod]
  change (b.toNat / 16 * 16 % 256 + b.toNat % 16) % 256 = b.toNat
  omega

theorem percentDecode_cons {b : UInt8} (hb : b ≠ 37) (rest : List UInt8) :
    percentDecode (b :: rest) = b :: percentDecode rest := by
  rw [percentDecode]
  intro _ _ _ h
  exact absurd h hb

theorem percentDecode_encodeByte (b : UInt8) (rest : List UInt8) :
    percentDecode (encodeByte b ++ rest) = b :: percentDecode rest := by
  unfold encodeByte
  by_cases hb : isUnreserved b
  · have hne : b ≠ 37 := by
      rintro rfl
      exact absurd hb (by decide)
    rw [if_pos hb, List.singleton_append, percentDecode_cons hne]
  · rw [if_neg hb]
    simp only [List.cons_append, List.nil_append]
    rw [percentDecode, hexValue?_hexDigit _ (toNat_high_lt b), hexValue?_hexDigit _ (toNat_low_lt b)]
    simp only [high_mul_add_low]

theorem percentDecode_flatMap_encodeByte (bs : List UInt8) :
    percentDecode (bs.flatMap encodeByte) = bs := by
  induction bs with
  | nil => rfl
  | cons b bs ih => rw [List.flatMap_cons, percentDecode_encodeByte, ih]

/-! ## Texts -/

theorem toList_loop_eq (bs : ByteArray) (i : Nat) (done : List UInt8) :
    ByteArray.toList.loop bs i done = done.reverse ++ bs.data.toList.drop i := by
  fun_induction ByteArray.toList.loop bs i done with
  | case1 i done h ih =>
    have hi : i < bs.data.toList.length := by simpa using h
    rw [ih, List.drop_eq_getElem_cons hi]
    simp [ByteArray.get!, h]
  | case2 i done h =>
    rw [List.drop_eq_nil_of_le (by simpa using Nat.le_of_not_lt h)]
    simp

theorem toList_eq_data_toList (bs : ByteArray) : bs.toList = bs.data.toList := by
  unfold ByteArray.toList
  rw [toList_loop_eq, List.reverse_nil, List.nil_append, List.drop_zero]

/-- What a byte of an encoded text is as a character: one byte in UTF-8, and neither a blank nor
a mark of query strings. -/
def IsEncoded (b : UInt8) : Prop :=
  String.utf8EncodeChar (Char.ofUInt8 b) = [b] ∧ isBlank (Char.ofUInt8 b) = false ∧
    Char.ofUInt8 b ∉ ['&', '=', '+', '?']

instance decidableIsEncoded (b : UInt8) : Decidable (IsEncoded b) :=
  inferInstanceAs (Decidable (_ ∧ _ ∧ _))

theorem isEncoded_of_isUnreserved (b : UInt8) : isUnreserved b → IsEncoded b :=
  forall_byte (p := fun b => isUnreserved b → IsEncoded b) (k := 256) (by decide +kernel)
    b b.toNat_lt

theorem isEncoded_hexDigit : ∀ n : UInt8, n.toNat < 16 → IsEncoded (hexDigit n) :=
  forall_byte (by decide)

theorem isEncoded_of_mem_encodeByte {a b : UInt8} (h : b ∈ encodeByte a) : IsEncoded b := by
  unfold encodeByte at h
  split at h
  · rename_i ha
    obtain rfl := List.mem_singleton.1 h
    exact isEncoded_of_isUnreserved b ha
  · simp only [List.mem_cons, List.not_mem_nil, or_false] at h
    obtain rfl | rfl | rfl := h
    · decide
    · exact isEncoded_hexDigit _ (toNat_high_lt a)
    · exact isEncoded_hexDigit _ (toNat_low_lt a)

theorem isEncoded_of_mem_encodedBytes {s : String} {b : UInt8} (h : b ∈ encodedBytes s) :
    IsEncoded b := by
  obtain ⟨a, -, hab⟩ := List.mem_flatMap.1 h
  exact isEncoded_of_mem_encodeByte hab

theorem not_blank_of_mem_percentEncode {s : String} {c : Char} (h : c ∈ percentEncode s) :
    isBlank c = false := by
  obtain ⟨b, hb, rfl⟩ := List.mem_map.1 h
  exact (isEncoded_of_mem_encodedBytes hb).2.1

theorem not_mark_of_mem_percentEncode {s : String} {c : Char} (h : c ∈ percentEncode s) :
    c ∉ ['&', '=', '+', '?'] := by
  obtain ⟨b, hb, rfl⟩ := List.mem_map.1 h
  exact (isEncoded_of_mem_encodedBytes hb).2.2

/-- Characters that stand for one byte each are these bytes in UTF-8. -/
theorem toList_toByteArray_ofList {bs : List UInt8} (h : ∀ b ∈ bs, IsEncoded b) :
    (String.ofList (bs.map Char.ofUInt8)).toByteArray.toList = bs := by
  rw [toList_eq_data_toList, String.toByteArray_ofList]
  unfold List.utf8Encode
  rw [List.toList_data_toByteArray]
  induction bs with
  | nil => rfl
  | cons b bs ih =>
    rw [List.forall_mem_cons] at h
    rw [List.map_cons, List.flatMap_cons, h.1.1, ih h.2, List.singleton_append]

theorem decoded?_percentEncode (s : String) :
    decoded? (String.ofList (percentEncode s)) = some s := by
  unfold decoded? percentEncode
  rw [toList_toByteArray_ofList fun b => isEncoded_of_mem_encodedBytes]
  unfold encodedBytes
  rw [percentDecode_flatMap_encodeByte, toList_eq_data_toList]
  exact dif_pos s.isValidUTF8

end DataGrid.Text
