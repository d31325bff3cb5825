import DataGrid.Proofs.RoundedQuotients
import DataGrid.Store.Field

/-!
# Stored numbers and their readings

Stored numbers compare as binary numbers, and their readings compare as the column's kind has it:
integers as words, decimals by their digits. Both ways agree on every number in a binary kind, and
elsewhere on integers that a binary number holds exactly, those of up to 53 binary digits.
-/

namespace DataGrid

open Number Text

namespace Number

theorem nearestCount_integer {n : Int} (h : n.natAbs ≤ twoTo precision) :
    nearestCount precision (n.natAbs * unitsInOne) 1 = n.natAbs * unitsInOne :=
  nearestCount_of_fits (by decide) (fits_mul_twoTo (by decide) h)

theorem twoTo_precision : twoTo precision = 9007199254740992 := by decide

theorem unitsInOne_pos : 0 < unitsInOne := twoTo_pos unitExponent

theorem Finite.signed_ofInt {n : Int} (h : n.natAbs ≤ twoTo precision) :
    (Finite.ofInt n).signed = n * unitsInOne := by
  unfold Finite.signed Finite.ofInt
  rw [nearestCount_integer h]
  by_cases hn : n < 0
  · have habs : (n.natAbs : Int) = -n := by omega
    rw [if_pos (decide_eq_true hn), Int.natCast_mul, habs, Int.neg_mul, Int.neg_neg]
  · have habs : (n.natAbs : Int) = n := by omega
    rw [if_neg (by simpa using hn), Int.natCast_mul, habs]

/-- The order of integers is that of their binary numbers. -/
theorem Finite.compare_ofInt {m n : Int} (hm : m.natAbs ≤ twoTo precision)
    (hn : n.natAbs ≤ twoTo precision) :
    (Finite.ofInt m).compare (Finite.ofInt n) = Ord.compare m n := by
  have hpos : (0 : Int) < unitsInOne := Int.natCast_pos.2 unitsInOne_pos
  unfold Finite.compare
  rw [signed_ofInt hm, signed_ofInt hn]
  cases h : Ord.compare m n with
  | lt => exact Int.compare_eq_lt.2 (Int.mul_lt_mul_of_pos_right (Int.compare_eq_lt.1 h) hpos)
  | eq => rw [Std.compare_eq_iff_eq, Std.compare_eq_iff_eq.1 h]
  | gt => exact Int.compare_eq_gt.2 (Int.mul_lt_mul_of_pos_right (Int.compare_eq_gt.1 h) hpos)

theorem Binary64.ofInt_eq_finite {n : Int} (h : n.natAbs ≤ twoTo precision) :
    Binary64.ofInt n = .finite (Finite.ofInt n) := by
  have hrange : n.natAbs * unitsInOne < unitsLimit := by
    have hlimit := twoTo_lt (m := precision + unitExponent) (n := 2098) (by decide)
    rw [twoTo_add] at hlimit
    unfold unitsInOne unitsLimit
    exact Nat.lt_of_le_of_lt (Nat.mul_le_mul_right _ h) hlimit
  unfold Binary64.ofInt ofRatio ofUnits Finite.ofInt
  simp only [nearestCount_integer h]
  rw [if_pos hrange]

end Number

namespace Value

theorem compare?_float_int (x : Binary64) {i : Int64} {y : Binary64}
    (h : (int i).asBinary64? = some y) : (float x).compare? (int i) = x.compare? y := by
  show compareBinary? (float x) (int i) = _
  unfold compareBinary?
  rw [h]
  rfl

theorem compare?_int_float {i : Int64} {y : Binary64} (h : (int i).asBinary64? = some y)
    (x : Binary64) : (int i).compare? (float x) = y.compare? x := by
  show compareBinary? (int i) (float x) = _
  unfold compareBinary?
  rw [h]
  rfl

theorem asBinary64?_int {i : Int64} (h : i.toInt.natAbs ≤ twoTo precision) :
    (int i).asBinary64? = some (.finite (Finite.ofInt i.toInt)) :=
  congrArg some (Binary64.ofInt_eq_finite h)

end Value

namespace JsonNumber

/-- Whether an integral kind keeps the number exactly when it goes through a binary number. -/
def Exact : JsonNumber → Prop
  | integer n => fitsWord 64 n = true → n.natAbs ≤ twoTo precision
  | real _ => True

/-- Whether the numbers of a kind that are equal as stored are those that are equal as read. -/
def Plain (n : JsonNumber) (kind : Kind) : Prop :=
  match kind with
  | .byte | .short | .int | .long | .relatedCount => n.Exact
  | .decimal => ∃ m : Int, n = .integer m ∧ m.natAbs ≤ twoTo precision
  | .float | .double => True
  | _ => False

variable {a b n : JsonNumber}

theorem Exact.toInt64?_eq_some {i : Int64} (hn : n.Exact) (h : n.toInt64? = some i) :
    n = .integer i.toInt ∧ i.toInt.natAbs ≤ twoTo precision := by
  cases n with
  | real x => cases h
  | integer n =>
    by_cases hfits : fitsWord 64 n = true
    · have hword : int64At? n = some (Int64.ofInt n) := if_pos hfits
      have hsize := hn hfits
      cases hword.symm.trans h
      rw [toInt_ofInt_of_fitsWord hfits]
      exact ⟨rfl, hsize⟩
    · have hword : int64At? n = none := if_neg hfits
      cases hword.symm.trans h

theorem compare?_readAs_integral (ha : a.Exact) (hb : b.Exact) :
    (a.readAs .long).compare? (b.readAs .long) = some (a.compare b) := by
  unfold readAs
  cases hi : a.toInt64? with
  | none =>
    cases hj : b.toInt64? with
    | none => rfl
    | some j =>
      obtain ⟨rfl, hsize⟩ := hb.toInt64?_eq_some hj
      exact Value.compare?_float_int _ (Value.asBinary64?_int hsize)
  | some i =>
    obtain ⟨rfl, hsize⟩ := ha.toInt64?_eq_some hi
    cases hj : b.toInt64? with
    | none => exact Value.compare?_int_float (Value.asBinary64?_int hsize) _
    | some j =>
      obtain ⟨rfl, hsize'⟩ := hb.toInt64?_eq_some hj
      exact congrArg some (Finite.compare_ofInt hsize hsize').symm

theorem readAs_decimal {m : Int} (h : m.natAbs ≤ twoTo precision) :
    ∃ x, (integer m).readAs .decimal = .decimal x ∧ x.signed = m ∧ x.scale = 0 := by
  have hlt : m.natAbs < mantissaLimit := by
    rw [twoTo_precision] at h
    unfold mantissaLimit
    omega
  have hblank : ∀ c ∈ integerText m, isBlank c = false := by
    intro c hc
    unfold integerText at hc
    split at hc
    · rcases List.mem_cons.1 hc with rfl | hdigit
      · decide
      · exact isBlank_of_isDigit (isDigit_of_mem_digitsOf hdigit)
    · exact isBlank_of_isDigit (isDigit_of_mem_digitsOf hc)
  obtain ⟨x, hx, hvalue⟩ := Decimal.ofChars?_integerText hlt
  refine ⟨x, ?_, hvalue⟩
  show (((Decimal.ofChars? (trim (String.ofList (integerText m)).toList)).map .decimal).getD
    .null : Value) = .decimal x
  rw [String.toList_ofList, trim_eq_self hblank, hx]
  rfl

theorem compare?_readAs_decimal {m n : Int} (hm : m.natAbs ≤ twoTo precision)
    (hn : n.natAbs ≤ twoTo precision) :
    ((integer m).readAs .decimal).compare? ((integer n).readAs .decimal) =
      some ((integer m).compare (integer n)) := by
  obtain ⟨x, hx, hxsigned, hxscale⟩ := readAs_decimal hm
  obtain ⟨y, hy, hysigned, hyscale⟩ := readAs_decimal hn
  rw [hx, hy]
  show some (Ord.compare (x.signed * (tenTo y.scale : Int)) (y.signed * (tenTo x.scale : Int))) =
    some ((Finite.ofInt m).compare (Finite.ofInt n))
  have hone : ((tenTo 0 : Nat) : Int) = 1 := rfl
  rw [Finite.compare_ofInt hm hn, hxscale, hyscale, hone, Int.mul_one, Int.mul_one, hxsigned,
    hysigned]

/-- Plain numbers compare as stored in the way they compare as read. -/
theorem compare?_readAs {kind : Kind} (ha : a.Plain kind) (hb : b.Plain kind) :
    (a.readAs kind).compare? (b.readAs kind) = some (a.compare b) := by
  cases kind with
  | byte | short | int | long | relatedCount => exact compare?_readAs_integral ha hb
  | float | double => rfl
  | decimal =>
    obtain ⟨m, rfl, hm⟩ := ha
    obtain ⟨n, rfl, hn⟩ := hb
    exact compare?_readAs_decimal hm hn
  | _ => exact ha.elim

end JsonNumber

end DataGrid
