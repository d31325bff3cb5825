import DataGrid.Calendar.Layout
import DataGrid.Proofs.OperatorCodes

/-!
# Digits of a given width

Zeros in front of the digits of a number leave a run of digits with the same value, and fill the
width exactly unless the number has more digits. Readers that count digits take such a run as it
was written, whatever follows it.
-/

namespace DataGrid

open Text Number

/-! ## Runs of digits -/

namespace Number

variable {s t : List Char}

theorem runValue_zeros (k : Nat) (s : List Char) :
    runValue (List.replicate k '0' ++ s) = runValue s := by
  unfold runValue
  rw [Nat.ofDigitChars_append, Nat.ofDigitChars_replicate_zero, Nat.mul_zero]

theorem ofDigitChars_lt (h : ∀ c ∈ s, c.isDigit = true) (n : Nat) :
    Nat.ofDigitChars 10 s n < (n + 1) * tenTo s.length := by
  induction s generalizing n with
  | nil => exact Nat.lt_of_lt_of_eq (Nat.lt_succ_self n) (Nat.mul_one (n + 1)).symm
  | cons c s ih =>
    have hc : c.toNat - '0'.toNat ≤ 9 := by
      have hlast := (isDigit_bounds (h c List.mem_cons_self)).2
      show c.toNat - 48 ≤ 9
      omega
    have hrest := ih (fun d hd => h d (List.mem_cons_of_mem c hd)) (10 * n + (c.toNat - '0'.toNat))
    rw [Nat.ofDigitChars_cons, List.length_cons, tenTo_succ]
    calc Nat.ofDigitChars 10 s (10 * n + (c.toNat - '0'.toNat))
        < (10 * n + (c.toNat - '0'.toNat) + 1) * tenTo s.length := hrest
      _ ≤ ((n + 1) * 10) * tenTo s.length := Nat.mul_le_mul_right _ (by omega)
      _ = (n + 1) * (10 * tenTo s.length) := Nat.mul_assoc ..

theorem runValue_lt (h : ∀ c ∈ s, c.isDigit = true) : runValue s < tenTo s.length :=
  Nat.lt_of_lt_of_eq (ofDigitChars_lt h 0) (by rw [Nat.zero_add, Nat.one_mul])

/-- Digits of equal length are told apart by their value. -/
theorem eq_of_ofDigitChars_eq (hs : ∀ c ∈ s, c.isDigit = true) (ht : ∀ c ∈ t, c.isDigit = true)
    (hlength : s.length = t.length) {m n : Nat}
    (h : Nat.ofDigitChars 10 s m = Nat.ofDigitChars 10 t n) : m = n ∧ s = t := by
  induction s generalizing t m n with
  | nil =>
    obtain rfl := List.length_eq_zero_iff.1 hlength.symm
    exact ⟨h, rfl⟩
  | cons c s ih =>
    cases t with
    | nil => cases hlength
    | cons d t =>
      rw [List.forall_mem_cons] at hs ht
      rw [Nat.ofDigitChars_cons, Nat.ofDigitChars_cons] at h
      obtain ⟨hvalue, rfl⟩ := ih hs.2 ht.2 (Nat.succ.inj hlength) h
      have hc := isDigit_bounds hs.1
      have hd := isDigit_bounds ht.1
      have hzero : '0'.toNat = 48 := rfl
      have hcd : c.toNat = d.toNat := by omega
      rw [Char.toNat_inj.1 hcd]
      exact ⟨by omega, rfl⟩

end Number

namespace Text

variable {width n : Nat}

theorem digitRun_paddedDigits (width n : Nat) : DigitRun (paddedDigits width n) where
  nonempty h := digitsOf_ne_nil n (List.append_eq_nil_iff.1 h).2
  digits c hc := by
    rcases List.mem_append.1 hc with hzero | hdigit
    · rw [List.eq_of_mem_replicate hzero]
      decide
    · exact isDigit_of_mem_digitsOf hdigit

theorem runValue_paddedDigits (width n : Nat) : runValue (paddedDigits width n) = n :=
  (runValue_zeros _ (digitsOf n)).trans (ofDigitChars_digitsOf n)

theorem naturalOf?_paddedDigits (width n : Nat) : naturalOf? (paddedDigits width n) = some n := by
  rw [naturalOf?_of_digitRun (digitRun_paddedDigits width n), runValue_paddedDigits]

theorem length_padStart (fill : Char) (width : Nat) (s : List Char) :
    (padStart fill width s).length = max width s.length := by
  unfold padStart
  rw [List.length_append, List.length_replicate]
  omega

theorem length_padEnd (fill : Char) (width : Nat) (s : List Char) :
    (padEnd fill width s).length = max width s.length := by
  unfold padEnd
  rw [List.length_append, List.length_replicate]
  omega

theorem length_paddedDigits (hwidth : 0 < width) (hn : n < tenTo width) :
    (paddedDigits width n).length = width := by
  have hlength : (digitsOf n).length ≤ width := (Nat.length_toDigits_le_iff (by decide) hwidth).2 hn
  unfold paddedDigits
  rw [length_padStart]
  omega

theorem exists_paddedDigits_two (hn : n < 100) : ∃ a b, paddedDigits 2 n = [a, b] := by
  match paddedDigits 2 n, length_paddedDigits (by decide) (show n < tenTo 2 from hn) with
  | [a, b], _ => exact ⟨a, b, rfl⟩

/-- A run of digits is its value, padded to its length. -/
theorem paddedDigits_of_naturalOf? {s : List Char} (h : naturalOf? s = some n) :
    paddedDigits s.length n = s := by
  obtain ⟨hrun, rfl⟩ := naturalOf?_inv h
  have hlength := length_paddedDigits (List.length_pos_iff.2 hrun.nonempty)
    (runValue_lt hrun.digits)
  exact (eq_of_ofDigitChars_eq (digitRun_paddedDigits _ _).digits hrun.digits hlength
    (runValue_paddedDigits s.length (runValue s))).2

/-- The digits at the head of a text are all taken, if the limit or another character ends them. -/
theorem spanDigits_append {limit : Nat} {s rest : List Char} (hs : ∀ c ∈ s, c.isDigit = true)
    (hlimit : s.length ≤ limit)
    (hend : s.length = limit ∨ ∀ c ∈ rest.head?, c.isDigit = false) :
    spanDigits limit (s ++ rest) = (s, rest) := by
  induction s generalizing limit with
  | nil =>
    cases limit with
    | zero => rfl
    | succ limit =>
      cases rest with
      | nil => rfl
      | cons c rest =>
        have hc : c.isDigit = false := hend.resolve_left (by simp) c rfl
        rw [List.nil_append, spanDigits, if_neg (Bool.eq_false_iff.1 hc)]
  | cons c s ih =>
    cases limit with
    | zero => exact absurd hlimit (by simp)
    | succ limit =>
      have hrest := ih (fun d hd => hs d (List.mem_cons_of_mem c hd))
        (Nat.le_of_succ_le_succ hlimit) (hend.imp_left Nat.succ.inj)
      rw [List.cons_append, spanDigits, if_pos (hs c List.mem_cons_self), hrest]

theorem trimStart_append {s : List Char} (h : DigitRun s) (rest : List Char) :
    trimStart (s ++ rest) = s ++ rest := by
  obtain ⟨c, s, rfl⟩ := List.exists_cons_of_ne_nil h.nonempty
  have hc : isBlank c = false := isBlank_of_isDigit (h.digits c List.mem_cons_self)
  exact List.dropWhile_cons_of_neg (by rw [hc]; decide)

end Text

/-! ## Readers of numbers -/

namespace Calendar

variable {n : Nat} (rest : List Char)

theorem takeDigits_paddedDigits {width : Nat} (hwidth : 0 < width) (hn : n < tenTo width) :
    takeDigits width (paddedDigits width n ++ rest) = some (n, rest) := by
  have hlength := length_paddedDigits hwidth hn
  unfold takeDigits
  rw [spanDigits_append (digitRun_paddedDigits width n).digits (Nat.le_of_eq hlength)
    (.inl hlength)]
  simp only [naturalOf?_paddedDigits, Option.map_some]

theorem takeNumber_paddedDigits (hn : n < 100) :
    takeNumber (paddedDigits 2 n ++ rest) = some (n, rest) := by
  unfold takeNumber
  rw [trimStart_append (digitRun_paddedDigits 2 n)]
  exact takeDigits_paddedDigits rest (by decide) hn

theorem takeYear_paddedDigits (hn : n < 10000) :
    takeYear (paddedDigits 4 n ++ rest) = some ((n : Int), rest) := by
  have hrun := digitRun_paddedDigits 4 n
  have hsign : ∀ c ∈ ['+', '-'], ∀ s, paddedDigits 4 n ++ rest ≠ c :: s := by
    intro c hc s heq
    obtain ⟨d, digits, hd⟩ := List.exists_cons_of_ne_nil hrun.nonempty
    have hdigit : d.isDigit = true := hrun.digits d (hd ▸ List.mem_cons_self)
    rw [hd, List.cons_append] at heq
    rw [(List.cons.inj heq).1] at hdigit
    revert hc hdigit
    simp only [List.mem_cons, List.not_mem_nil, or_false]
    rintro (rfl | rfl) <;> decide
  unfold takeYear
  rw [trimStart_append hrun]
  split
  · rename_i heq
    exact absurd heq (hsign '-' (by decide) _)
  · rename_i heq
    exact absurd heq (hsign '+' (by decide) _)
  · rw [takeDigits_paddedDigits rest (by decide) hn]
    rfl

theorem takeTwoDigits_paddedDigits (hn : n < 100) :
    takeTwoDigits (paddedDigits 2 n ++ rest) = some (n, rest) := by
  have hvalue := naturalOf?_paddedDigits 2 n
  obtain ⟨a, b, hdigits⟩ := exists_paddedDigits_two hn
  rw [hdigits] at hvalue ⊢
  exact congrArg (Option.map (·, rest)) hvalue

theorem takeFourDigits_paddedDigits (hn : n < 10000) :
    takeFourDigits (paddedDigits 4 n ++ rest) = some (n, rest) := by
  have hvalue := naturalOf?_paddedDigits 4 n
  have hlength : (paddedDigits 4 n).length = 4 := length_paddedDigits (by decide) hn
  match hdigits : paddedDigits 4 n, hlength with
  | [a, b, c, d], _ =>
    rw [hdigits] at hvalue
    exact congrArg (Option.map (·, rest)) hvalue

end Calendar

end DataGrid
