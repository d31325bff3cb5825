import DataGrid.Filter.Operator

/-!
# The codes of operators

A code is read as an integer literal between blanks: an optional sign and one or more ASCII
digits. Among the numbers of 64-bit words each ordinal gives its operator, however it is written,
and every other one is an error. Whatever else a code is, it stands for the operator `none`: a
number that no word has goes for a text that is no number, though it is out of range.
-/

namespace DataGrid

open Text Number

/-! ## Integer literals -/

namespace Number

/-- One or more ASCII digits. -/
structure DigitRun (s : List Char) : Prop where
  nonempty : s ≠ []
  digits : ∀ c ∈ s, c.isDigit = true

/-- The number that a run of digits denotes. -/
def runValue (s : List Char) : Nat := Nat.ofDigitChars 10 s 0

/-- An integer literal and its value. -/
inductive Literal : List Char → Int → Prop where
  | unsigned {s : List Char} (h : DigitRun s) : Literal s (runValue s)
  | plus {s : List Char} (h : DigitRun s) : Literal ('+' :: s) (runValue s)
  | minus {s : List Char} (h : DigitRun s) : Literal ('-' :: s) (-runValue s)

variable {s : List Char} {n : Int}

theorem DigitRun.not_mem {c : Char} (h : DigitRun s) (hc : c.isDigit = false) : c ∉ s :=
  fun hmem => Bool.eq_false_iff.1 hc (h.digits c hmem)

theorem naturalOf?_of_digitRun (h : DigitRun s) : naturalOf? s = some (runValue s) := by
  have hall : s.all Char.isDigit = true := List.all_eq_true.2 h.digits
  have hne : s.isEmpty = false := List.isEmpty_eq_false_iff.2 h.nonempty
  unfold naturalOf?
  rw [hall, hne]
  rfl

theorem naturalOf?_inv {k : Nat} (h : naturalOf? s = some k) : DigitRun s ∧ k = runValue s := by
  unfold naturalOf? at h
  split at h
  · cases h
  · rename_i hrun
    simp only [Bool.or_eq_true, Bool.not_eq_true', not_or, Bool.not_eq_true, Bool.not_eq_false,
      List.isEmpty_eq_false_iff, List.all_eq_true] at hrun
    exact ⟨⟨hrun.1, hrun.2⟩, (Option.some.inj h).symm⟩

/-- A run of digits begins with no sign. -/
theorem DigitRun.integerOf? (h : DigitRun s) : integerOf? s = some (runValue s) := by
  have hsign : ∀ c ∈ ['+', '-'], ∀ rest, s ≠ c :: rest := by
    rintro c hc rest rfl
    have hdigit := h.digits c List.mem_cons_self
    revert hc hdigit
    simp only [List.mem_cons, List.not_mem_nil, or_false]
    rintro (rfl | rfl) <;> decide
  rw [Number.integerOf?.eq_3 s (hsign '+' (by decide)) (hsign '-' (by decide)),
    naturalOf?_of_digitRun h]
  rfl

/-- Integers are read from their literals and from nothing else. -/
theorem integerOf?_eq_some_iff : integerOf? s = some n ↔ Literal s n := by
  constructor
  · intro h
    unfold Number.integerOf? at h
    split at h
    · obtain ⟨k, hk, rfl⟩ := Option.map_eq_some_iff.1 h
      obtain ⟨hrun, rfl⟩ := naturalOf?_inv hk
      exact .plus hrun
    · obtain ⟨k, hk, rfl⟩ := Option.map_eq_some_iff.1 h
      obtain ⟨hrun, rfl⟩ := naturalOf?_inv hk
      exact .minus hrun
    · obtain ⟨k, hk, rfl⟩ := Option.map_eq_some_iff.1 h
      obtain ⟨hrun, rfl⟩ := naturalOf?_inv hk
      exact .unsigned hrun
  · intro h
    cases h with
    | unsigned h => exact h.integerOf?
    | plus h => exact congrArg (Option.map Int.ofNat) (naturalOf?_of_digitRun h)
    | minus h => exact congrArg (Option.map fun k => -Int.ofNat k) (naturalOf?_of_digitRun h)

theorem int64Of?_of_literal (h : Literal s n) (hword : fitsWord 64 n = true) :
    ∃ w, int64Of? s = some w ∧ w.toInt = n := by
  refine ⟨Int64.ofInt n, ?_, toInt_ofInt_of_fitsWord hword⟩
  unfold int64Of? wordOf?
  rw [integerOf?_eq_some_iff.2 h, Option.filter_some, if_pos hword]
  rfl

theorem int64Of?_of_wide (h : Literal s n) (hwide : fitsWord 64 n = false) :
    int64Of? s = none := by
  unfold int64Of? wordOf?
  rw [integerOf?_eq_some_iff.2 h, Option.filter_some, hwide]
  rfl

theorem int64Of?_of_not_literal (h : ∀ n, ¬ Literal s n) : int64Of? s = none := by
  have hnone : Number.integerOf? s = none :=
    Option.eq_none_iff_forall_ne_some.2 fun n hn => h n (integerOf?_eq_some_iff.1 hn)
  unfold int64Of? wordOf?
  rw [hnone]
  rfl

end Number

/-! ## Operators -/

namespace Operator

theorem ofCode_code (o : Operator) : ofCode o.code = .ok o := by
  cases o <;> rfl

theorem code_isEmpty (o : Operator) : o.code.toList.isEmpty = false := by
  cases o <;> rfl

theorem not_mem_code (o : Operator) : '_' ∉ o.code.toList := by
  intro h
  unfold code at h
  rw [String.toList_ofList] at h
  exact absurd (isDigit_of_mem_digitsOf h) (by decide)

theorem ofOrdinal?_of_le {k : Nat} (h : k ≤ 14) : ∃ o, ofOrdinal? k = some o ∧ o.ordinal = k := by
  have hlt : k < all.length := Nat.lt_succ_of_le h
  have hordinals : ∀ i : Fin all.length, (all.get i).ordinal = i := by decide
  exact ⟨all[k], List.getElem?_eq_getElem hlt, hordinals ⟨k, hlt⟩⟩

theorem ofOrdinal?_of_lt {k : Nat} (h : 14 < k) : ofOrdinal? k = Option.none :=
  List.getElem?_eq_none h

/-! ## Codes -/

section Codes

variable {code : String} {n : Int}

/-- A code that is the literal of a word is decoded by its value. -/
theorem ofCode_of_word (h : Literal (trim code.toList) n) (hword : fitsWord 64 n = true) :
    ofCode code =
      if 0 ≤ n ∧ n < 256 then
        (ofOrdinal? n.toNat).elim (.error ⟨String.ofList (integerText n)⟩) .ok
      else .error ⟨code⟩ := by
  obtain ⟨w, hw, hvalue⟩ := int64Of?_of_literal h hword
  unfold ofCode
  rw [hw]
  simp only [hvalue]
  cases ofOrdinal? n.toNat <;> rfl

theorem ofCode_of_ordinal (h : Literal (trim code.toList) n) (hword : fitsWord 64 n = true)
    (hn : 0 ≤ n ∧ n ≤ 14) : ∃ o, ofCode code = .ok o ∧ (o.ordinal : Int) = n := by
  obtain ⟨o, ho, hordinal⟩ := ofOrdinal?_of_le (k := n.toNat) (by omega)
  refine ⟨o, ?_, by omega⟩
  rw [ofCode_of_word h hword, if_pos ⟨hn.1, by omega⟩, ho]
  rfl

/-- The error names the number if it is a byte, and else the code as it was given. -/
theorem ofCode_of_unknown (h : Literal (trim code.toList) n) (hword : fitsWord 64 n = true)
    (hn : ¬ (0 ≤ n ∧ n ≤ 14)) : ofCode code =
      .error ⟨if 0 ≤ n ∧ n < 256 then String.ofList (integerText n) else code⟩ := by
  rw [ofCode_of_word h hword]
  by_cases hbyte : 0 ≤ n ∧ n < 256
  · rw [if_pos hbyte, if_pos hbyte, ofOrdinal?_of_lt (by omega)]
    rfl
  · rw [if_neg hbyte, if_neg hbyte]

theorem ofCode_of_not_word (h : int64Of? (trim code.toList) = Option.none) :
    ofCode code = .ok none := by
  unfold ofCode
  rw [h]

end Codes

/-- **Operator codes decode by their number.** A code that is, but for blanks around it, the
literal of a 64-bit word gives the operator whose ordinal is its value, and an error where there is
none, which names a value from 0 to 255 by its digits and any other by the code. The literal of any
other number gives the operator `none`, and so does a code that is no literal. -/
theorem ofCode_literal (code : String) :
    (∀ n, Literal (trim code.toList) n → fitsWord 64 n = true →
      (0 ≤ n ∧ n ≤ 14 → ∃ o, ofCode code = .ok o ∧ (o.ordinal : Int) = n) ∧
      (¬ (0 ≤ n ∧ n ≤ 14) → ofCode code =
        .error ⟨if 0 ≤ n ∧ n < 256 then String.ofList (integerText n) else code⟩)) ∧
    (∀ n, Literal (trim code.toList) n → fitsWord 64 n = false → ofCode code = .ok none) ∧
    ((∀ n, ¬ Literal (trim code.toList) n) → ofCode code = .ok none) := by
  refine ⟨?_, ?_, ?_⟩
  · exact fun n h hword => ⟨ofCode_of_ordinal h hword, ofCode_of_unknown h hword⟩
  · exact fun n h hwide => ofCode_of_not_word (int64Of?_of_wide h hwide)
  · exact fun h => ofCode_of_not_word (int64Of?_of_not_literal h)

/-- The least number that no 64-bit word has. -/
theorem literal_beyond_words :
    Literal (trim "9223372036854775808".toList) 9223372036854775808 :=
  integerOf?_eq_some_iff.1 rfl

/-- The literals of the fifth operator, a number without an operator, a number too large for a
word, and a code that is no literal. -/
theorem ofCode_literal_of_texts :
    Literal (trim " +005 ".toList) 5 ∧ ofCode " +005 " = .ok greaterThan ∧
      Literal (trim "-1".toList) (-1) ∧ ofCode "-1" = .error ⟨"-1"⟩ ∧
      Literal (trim "9223372036854775808".toList) 9223372036854775808 ∧
      ofCode "9223372036854775808" = .ok none ∧
      (∀ n, ¬ Literal (trim "5_".toList) n) ∧ ofCode "5_" = .ok none := by
  have hfive : Literal (trim " +005 ".toList) 5 := integerOf?_eq_some_iff.1 rfl
  have hminus : Literal (trim "-1".toList) (-1) := integerOf?_eq_some_iff.1 rfl
  have htext : ∀ n, ¬ Literal (trim "5_".toList) n := by
    intro n hn
    have hread : (Option.none : Option Int) = some n := integerOf?_eq_some_iff.2 hn
    cases hread
  obtain ⟨o, ho, hordinal⟩ := ((ofCode_literal " +005 ").1 5 hfive rfl).1 (by decide)
  have hop : o = greaterThan := by
    cases o <;> first | rfl | exact absurd hordinal (by decide)
  subst hop
  exact ⟨hfive, ho, hminus, ((ofCode_literal "-1").1 (-1) hminus rfl).2 (by decide),
    literal_beyond_words, (ofCode_literal "9223372036854775808").2.1 _ literal_beyond_words rfl,
    htext, (ofCode_literal "5_").2.2 htext⟩

/-- A number that no operator has is an error among 64-bit words only: a larger one goes for a text
that is no number. -/
theorem not_ofCode_out_of_range : ¬ ∀ (code : String) (n : Int), Literal (trim code.toList) n →
    ¬ (0 ≤ n ∧ n ≤ 14) → ∃ e, ofCode code = .error e := by
  intro hclaim
  obtain ⟨e, he⟩ := hclaim "9223372036854775808" _ literal_beyond_words (by decide)
  have hnone : ofCode "9223372036854775808" = .ok none := rfl
  rw [hnone] at he
  cases he

end Operator

end DataGrid
