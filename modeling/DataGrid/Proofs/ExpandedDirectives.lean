import Mathlib.Data.List.TakeWhile
import DataGrid.Proofs.OperatorCodes
import DataGrid.Total.Directive

/-!
# Directives, read and expanded

The modifiers in front of a letter can be read in one way only; a zero in front of a width is a
flag. A directive stands for a text, or the program ends in writing one: with a width, or with
places behind a point, that no text can have.
-/

namespace DataGrid

open Text Number

namespace Directive

/-! ## Modifiers -/

/-- Digits that are read as a width or a precision: ASCII digits of a number that a 64-bit word
has. -/
structure Sized (digits : List Char) : Prop where
  ascii : ∀ c ∈ digits, c.isDigit = true
  word : runValue digits < twoTo 64

namespace Modifiers

/-- The text of modifiers. -/
def chars (m : Modifiers) : List Char :=
  m.flags ++ (m.width ++ m.precision.elim [] ('.' :: ·))

/-- Flags, the digits of a width and the digits of a precision. -/
structure Formed (m : Modifiers) : Prop where
  flags : ∀ c ∈ m.flags, c ∈ ['-', '0', ',']
  width : ∀ c ∈ m.width, isDecimalDigit c = true
  precision : ∀ digits ∈ m.precision, digits ≠ [] ∧ ∀ c ∈ digits, isDecimalDigit c = true

/-- Modifiers as their text is read: a zero in front of the width is a flag. -/
structure Spelled (m : Modifiers) : Prop extends m.Formed where
  unflagged : m.width.head? ≠ some '0'

/-- Modifiers with a width and a precision that can be read. -/
structure Readable (m : Modifiers) : Prop where
  width : Sized m.width
  precision : ∀ digits ∈ m.precision, Sized digits

/-- The directive of modifiers that can be read. -/
def directive (m : Modifiers) (c : Conversion) : Directive where
  left := '-' ∈ m.flags
  zeros := '0' ∈ m.flags
  grouped := ',' ∈ m.flags
  width := runValue m.width
  precision := m.precision.map runValue
  conversion := c

end Modifiers

/-! ## What a directive stands for -/

/-- What a directive with a letter prints, and how often it converts the argument. -/
inductive Stands (argument : Argument) (m : Modifiers) : Char → Nat → List Char → Prop where
  | percent : Stands argument m '%' 0 ['%']
  | newline : Stands argument m 'n' 0 ['\n']
  | converted {c : Conversion} {body : List Char} (hm : m.Readable)
      (hbody : (m.directive c).convert? argument = some body) :
      Stands argument m c.letter 1 (pad (m.directive c) body)

/-- A directive with a letter that ends the program in converting the argument: places behind the
point that are not counted, or fill characters for more than a text holds. -/
inductive Overruns (argument : Argument) (m : Modifiers) : Char → Crash → Prop where
  | places {c : Conversion} (hm : m.Readable)
      (hplaces : (m.directive c).overprecise argument = true) :
      Overruns argument m c.letter .placesOverflow
  | capacity {c : Conversion} {body : List Char} (hm : m.Readable)
      (hplaces : (m.directive c).overprecise argument = false)
      (hbody : (m.directive c).convert? argument = some body)
      (hlength : body.length < (m.directive c).width)
      (hwidth : longestText < (m.directive c).width) :
      Overruns argument m c.letter .capacityOverflow

variable {argument : Argument} {m : Modifiers} {c : Char} {s rest : List Char}
variable {conversion : Conversion} {cause : Crash} {converted : Bool}

/-! ## Reading modifiers -/

theorem isFlag_eq_true : isFlag c = true ↔ c ∈ ['-', '0', ','] := by
  simp [isFlag, or_assoc]

theorem isFlag_of_mem_letters (hc : c ∈ letters) : isFlag c = false := by
  have hnone : letters.all (!isFlag ·) = true := by decide
  simpa using List.all_eq_true.1 hnone c hc

theorem isDecimalDigit_of_mem_letters (hc : c ∈ letters) : isDecimalDigit c = false := by
  have hnone : letters.all (!isDecimalDigit ·) = true := by decide +kernel
  simpa using List.all_eq_true.1 hnone c hc

/-- A text is cut behind the characters that fit. -/
theorem takeWhile_dropWhile_append {p : Char → Bool} {a b : List Char} (ha : ∀ x ∈ a, p x = true)
    (hb : ∀ x ∈ b.head?, p x = false) : (a ++ b).takeWhile p = a ∧ (a ++ b).dropWhile p = b := by
  rw [List.takeWhile_append_of_pos ha, List.dropWhile_append_of_pos ha]
  cases b with
  | nil => simp
  | cons x b => simp [hb x rfl]

theorem takePrecision_chars {precision : Option (List Char)}
    (h : ∀ digits ∈ precision, digits ≠ [] ∧ ∀ c ∈ digits, isDecimalDigit c = true)
    (hc : c ∈ letters) :
    takePrecision (precision.elim [] ('.' :: ·) ++ c :: s) = (precision, c :: s) := by
  cases precision with
  | none =>
    have hpoint : c ≠ '.' := by
      rintro rfl
      exact absurd hc (by decide)
    unfold takePrecision
    split
    · rename_i heq
      exact absurd (List.cons.inj heq).1 hpoint
    · rfl
  | some digits =>
    obtain ⟨hne, hdigits⟩ := h digits rfl
    obtain ⟨htake, hdrop⟩ := takeWhile_dropWhile_append (b := c :: s) hdigits (by
      rintro x ⟨⟩
      exact isDecimalDigit_of_mem_letters hc)
    have hempty : digits.isEmpty = false := List.isEmpty_eq_false_iff.2 hne
    simp only [takePrecision, Option.elim_some, List.cons_append, htake, hdrop, hempty]
    rfl

/-- What follows the width ends it, and is no flag. -/
theorem head?_precision_chars (precision : Option (List Char)) (hc : c ∈ letters) :
    ∀ x ∈ (precision.elim [] ('.' :: ·) ++ c :: s).head?,
      isFlag x = false ∧ isDecimalDigit x = false := by
  cases precision with
  | none =>
    rintro x ⟨⟩
    exact ⟨isFlag_of_mem_letters hc, isDecimalDigit_of_mem_letters hc⟩
  | some digits =>
    rintro x ⟨⟩
    exact ⟨by decide, by decide +kernel⟩

/-- A flag that is a digit is a zero. -/
theorem eq_zero_of_isFlag_of_isDecimalDigit (hflag : isFlag c = true)
    (hdigit : isDecimalDigit c = true) : c = '0' := by
  have hcases := isFlag_eq_true.1 hflag
  simp only [List.mem_cons, List.not_mem_nil, or_false] at hcases
  obtain rfl | rfl | rfl := hcases
  · exact absurd hdigit (by decide +kernel)
  · rfl
  · exact absurd hdigit (by decide +kernel)

theorem takeModifiers_chars (hm : m.Spelled) (hc : c ∈ letters) :
    takeModifiers (m.chars ++ c :: s) = (m, c :: s) := by
  obtain ⟨flags, width, precision⟩ := m
  have hend := head?_precision_chars (s := s) precision hc
  obtain ⟨htakeWidth, hdropWidth⟩ :=
    takeWhile_dropWhile_append hm.width fun x hx => (hend x hx).2
  have hunflagged : ∀ x ∈ (width ++ (precision.elim [] ('.' :: ·) ++ c :: s)).head?,
      isFlag x = false := by
    cases width with
    | nil => exact fun x hx => (hend x hx).1
    | cons d width =>
      rintro x ⟨⟩
      refine Bool.eq_false_iff.2 fun hflag => hm.unflagged ?_
      have hzero := eq_zero_of_isFlag_of_isDecimalDigit hflag (hm.width d List.mem_cons_self)
      exact congrArg some hzero
  obtain ⟨htakeFlags, hdropFlags⟩ :=
    takeWhile_dropWhile_append (fun x hx => isFlag_eq_true.2 (hm.flags x hx)) hunflagged
  simp only [Modifiers.chars, List.append_assoc, takeModifiers, htakeFlags, hdropFlags,
    htakeWidth, hdropWidth, takePrecision_chars hm.precision hc]

theorem takePrecision_inv {precision : Option (List Char)}
    (h : takePrecision s = (precision, rest)) :
    s = precision.elim [] ('.' :: ·) ++ rest ∧
      ∀ digits ∈ precision, digits ≠ [] ∧ ∀ c ∈ digits, isDecimalDigit c = true := by
  unfold takePrecision at h
  split at h
  · rename_i after
    by_cases hempty : (after.takeWhile isDecimalDigit).isEmpty = true
    · rw [if_pos hempty] at h
      cases h
      exact ⟨rfl, by simp⟩
    · rw [if_neg hempty] at h
      cases h
      refine ⟨?_, ?_⟩
      · exact congrArg ('.' :: ·) List.takeWhile_append_dropWhile.symm
      · rintro digits ⟨⟩
        exact ⟨fun hnil => hempty (List.isEmpty_iff.2 hnil), fun c => List.mem_takeWhile_imp⟩
  · cases h
    exact ⟨rfl, by simp⟩

/-- The digits behind the flags begin with no zero, which would be a flag. -/
theorem head?_takeWhile_dropWhile (s : List Char) :
    ((s.dropWhile isFlag).takeWhile isDecimalDigit).head? ≠ some '0' := by
  have hhead := List.head?_dropWhile_not isFlag s
  cases hdrop : s.dropWhile isFlag with
  | nil => simp
  | cons c after =>
    rw [hdrop] at hhead
    have hc : c ≠ '0' := by
      rintro rfl
      have hflag : isFlag '0' = false := hhead
      exact absurd hflag (by decide)
    rw [List.takeWhile_cons]
    split
    · simpa using hc
    · simp

theorem takeModifiers_inv (h : takeModifiers s = (m, rest)) : m.Spelled ∧ s = m.chars ++ rest := by
  unfold takeModifiers at h
  obtain ⟨precision, after, hprecision⟩ :
      ∃ precision after, takePrecision ((s.dropWhile isFlag).dropWhile isDecimalDigit) =
        (precision, after) := ⟨_, _, rfl⟩
  simp only [hprecision, Prod.mk.injEq] at h
  obtain ⟨rfl, rfl⟩ := h
  obtain ⟨hafter, hdigits⟩ := takePrecision_inv hprecision
  refine ⟨⟨⟨fun c hc => isFlag_eq_true.1 (List.mem_takeWhile_imp hc),
    fun c => List.mem_takeWhile_imp, hdigits⟩, head?_takeWhile_dropWhile s⟩, ?_⟩
  simp only [Modifiers.chars, List.append_assoc, ← hafter, List.takeWhile_append_dropWhile]

/-- **Directives are read in one way.** A percent sign begins a directive exactly if it is spelled
there, and the modifiers, the letter and the rest are those of the spelling. -/
theorem take?_eq_some_iff :
    take? s = some ((m, c), rest) ↔
      m.Spelled ∧ c ∈ letters ∧ s = '%' :: (m.chars ++ c :: rest) := by
  constructor
  · intro h
    unfold take? at h
    split at h
    · split at h
      · rename_i htake
        split at h
        · rename_i hc
          cases h
          obtain ⟨hm, rfl⟩ := takeModifiers_inv htake
          exact ⟨hm, hc, rfl⟩
        · cases h
      · cases h
    · cases h
  · rintro ⟨hm, hc, rfl⟩
    simp only [take?, takeModifiers_chars hm hc, if_pos hc]

theorem take?_directive (hm : m.Spelled) (hc : c ∈ letters) :
    take? ('%' :: (m.chars ++ c :: s)) = some ((m, c), s) :=
  take?_eq_some_iff.2 ⟨hm, hc, rfl⟩

/-- A directive at the head of a text is there in one way. -/
theorem directive_unique {m' : Modifiers} {c' : Char} {s' : List Char} (hm : m.Spelled)
    (hc : c ∈ letters) (hm' : m'.Spelled) (hc' : c' ∈ letters)
    (h : m.chars ++ c :: s = m'.chars ++ c' :: s') : m = m' ∧ c = c' ∧ s = s' := by
  have htake := take?_directive (s := s) hm hc
  rw [h, take?_directive hm' hc'] at htake
  cases htake
  exact ⟨rfl, rfl, rfl⟩

/-! ## Leading zeros -/

/-- The text of modifiers tells them, as they are read. -/
theorem Modifiers.Spelled.eq_of_chars {n : Modifiers} (hm : m.Spelled) (hn : n.Spelled)
    (h : m.chars = n.chars) : m = n := by
  have hletter : '%' ∈ letters := by decide
  have hread := takeModifiers_chars (s := []) hm hletter
  rw [h, takeModifiers_chars hn hletter] at hread
  exact (Prod.mk.inj hread).1.symm

theorem Modifiers.Formed.exists_spelled (h : m.Formed) :
    ∃ n : Modifiers, n.Spelled ∧ n.chars = m.chars := by
  have hzero : ∀ x ∈ m.width.takeWhile (· = '0'), x = '0' := fun x hx => by
    simpa using List.mem_takeWhile_imp hx
  refine ⟨⟨m.flags ++ m.width.takeWhile (· = '0'), m.width.dropWhile (· = '0'), m.precision⟩,
    ⟨⟨?_, ?_, h.precision⟩, ?_⟩, ?_⟩
  · intro x hx
    rcases List.mem_append.1 hx with hx | hx
    · exact h.flags x hx
    · rw [hzero x hx]
      decide
  · intro x hx
    exact h.width x ((List.dropWhile_suffix _).subset hx)
  · intro hhead
    have hnot := List.head?_dropWhile_not (· = '0') m.width
    rw [hhead] at hnot
    exact absurd hnot (by decide)
  · simp only [Modifiers.chars, List.append_assoc]
    rw [← List.append_assoc (m.width.takeWhile _), List.takeWhile_append_dropWhile]

/-- Zeros in front of a width can be told from flags in one way only. -/
theorem Modifiers.Formed.existsUnique_spelled (h : m.Formed) :
    ∃! n : Modifiers, n.Spelled ∧ n.chars = m.chars := by
  obtain ⟨n, hn, hchars⟩ := h.exists_spelled
  refine ⟨n, ⟨hn, hchars⟩, fun k hk => ?_⟩
  exact hk.1.eq_of_chars hn (hk.2.trans hchars.symm)

/-- The form of modifiers can be tested. -/
theorem formed_of_all (hflags : m.flags.all isFlag = true)
    (hwidth : m.width.all isDecimalDigit = true)
    (hprecision : m.precision.all (fun digits => digits ≠ [] && digits.all isDecimalDigit) = true) :
    m.Formed where
  flags c hc := isFlag_eq_true.1 (List.all_eq_true.1 hflags c hc)
  width := List.all_eq_true.1 hwidth
  precision digits hdigits := by
    rw [Option.mem_def] at hdigits
    rw [hdigits, Option.all_some, Bool.and_eq_true, decide_eq_true_eq] at hprecision
    exact ⟨hprecision.1, List.all_eq_true.1 hprecision.2⟩

/-! ## Reading directives -/

theorem size?_eq_some_iff {digits : List Char} {n : Nat} (hne : digits ≠ []) :
    size? digits = some n ↔ Sized digits ∧ n = runValue digits := by
  simp only [size?, Option.filter_eq_some_iff, decide_eq_true_eq]
  constructor
  · rintro ⟨hn, hword⟩
    obtain ⟨hrun, rfl⟩ := naturalOf?_inv hn
    exact ⟨⟨hrun.digits, hword⟩, rfl⟩
  · rintro ⟨hsized, rfl⟩
    exact ⟨naturalOf?_of_digitRun ⟨hne, hsized.ascii⟩, hsized.word⟩

theorem sized_nil : Sized [] := ⟨by simp, twoTo_pos 64⟩

theorem width?_eq_some_iff {n : Nat} :
    m.width? = some n ↔ Sized m.width ∧ n = runValue m.width := by
  unfold Modifiers.width?
  cases m.width with
  | nil => simp [sized_nil, runValue, eq_comm]
  | cons c width => exact size?_eq_some_iff (List.cons_ne_nil c width)

theorem precision?_eq_some_iff (hm : m.Spelled) {p : Option Nat} :
    m.precision? = some p ↔
      (∀ digits ∈ m.precision, Sized digits) ∧ p = m.precision.map runValue := by
  have hprecision := hm.precision
  unfold Modifiers.precision?
  cases h : m.precision with
  | none => simp [eq_comm]
  | some digits =>
    have hsize := fun n => size?_eq_some_iff (n := n) (hprecision digits h).1
    simp only [Option.map_eq_some_iff, hsize, Option.mem_def, Option.some.injEq, Option.map_some]
    constructor
    · rintro ⟨n, ⟨hsized, rfl⟩, rfl⟩
      exact ⟨fun _ hdigits => hdigits ▸ hsized, rfl⟩
    · rintro ⟨hsized, rfl⟩
      exact ⟨_, ⟨hsized digits rfl, rfl⟩, rfl⟩

theorem build?_eq_some_iff (hm : m.Spelled) {d : Directive} :
    build? m conversion = some d ↔ m.Readable ∧ d = m.directive conversion := by
  simp only [build?, Option.bind_eq_bind, Option.bind_eq_some_iff, Option.pure_def,
    width?_eq_some_iff, precision?_eq_some_iff hm]
  constructor
  · rintro ⟨width, ⟨hwidth, rfl⟩, precision, ⟨hprecision, rfl⟩, hd⟩
    exact ⟨⟨hwidth, hprecision⟩, (Option.some.inj hd).symm⟩
  · rintro ⟨hread, rfl⟩
    exact ⟨_, ⟨hread.width, rfl⟩, _, ⟨hread.precision, rfl⟩, rfl⟩

/-! ## Expanding directives -/

theorem ofLetter?_letter (conversion : Conversion) :
    Conversion.ofLetter? conversion.letter = some conversion := by
  cases conversion <;> rfl

theorem letter_injective {a b : Conversion} (h : a.letter = b.letter) : a = b := by
  have hsome := congrArg Conversion.ofLetter? h
  rw [ofLetter?_letter, ofLetter?_letter] at hsome
  exact Option.some.inj hsome

theorem letter_mem_letters (conversion : Conversion) : conversion.letter ∈ letters := by
  cases conversion <;> decide

theorem letter_cases (hc : c ∈ letters) :
    c = '%' ∨ c = 'n' ∨ ∃ conversion : Conversion, c = conversion.letter := by
  simp only [letters, List.mem_cons, List.not_mem_nil, or_false] at hc
  obtain rfl | rfl | rfl | rfl | rfl | rfl := hc
  · exact .inr (.inr ⟨.whole, rfl⟩)
  · exact .inr (.inr ⟨.fixed, rfl⟩)
  · exact .inr (.inr ⟨.exponent, rfl⟩)
  · exact .inr (.inr ⟨.text, rfl⟩)
  · exact .inr (.inl rfl)
  · exact .inl rfl

theorem Stands.mem_letters {k : Nat} {text : List Char} (h : Stands argument m c k text) :
    c ∈ letters := by
  cases h with
  | percent | newline => decide
  | converted => exact letter_mem_letters _

theorem Stands.exists_letter {text : List Char} (h : Stands argument m c 1 text) :
    ∃ conversion : Conversion, c = conversion.letter := by
  cases h
  exact ⟨_, rfl⟩

theorem Stands.ne_letter {text : List Char} (h : Stands argument m c 0 text)
    (conversion : Conversion) : c ≠ conversion.letter := by
  cases h <;> cases conversion <;> decide

theorem Overruns.exists_letter (h : Overruns argument m c cause) :
    ∃ conversion : Conversion, c = conversion.letter := by
  cases h <;> exact ⟨_, rfl⟩

/-- A directive overruns exactly if the program ends in writing it. -/
theorem overruns_iff : Overruns argument m conversion.letter cause ↔
    m.Readable ∧ (m.directive conversion).write argument = .error (.crash cause) := by
  constructor
  · intro h
    generalize hletter : conversion.letter = c at h
    cases h with
    | places hm hplaces =>
      obtain rfl := letter_injective hletter
      exact ⟨hm, if_pos hplaces⟩
    | capacity hm hplaces hbody hlength hwidth =>
      obtain rfl := letter_injective hletter
      refine ⟨hm, ?_⟩
      rw [write, if_neg (Bool.eq_false_iff.1 hplaces), hbody]
      exact if_pos ⟨hlength, hwidth⟩
  · rintro ⟨hm, h⟩
    unfold write at h
    split at h
    · rename_i hplaces
      cases h
      exact .places hm hplaces
    · rename_i hplaces
      split at h
      · cases h
      · rename_i body hbody
        split at h
        · rename_i hsize
          cases h
          exact .capacity hm (Bool.eq_false_iff.2 hplaces) hbody hsize.1 hsize.2
        · cases h

theorem write_eq_ok_iff {d : Directive} {text : List Char} :
    d.write argument = .ok text ↔
      d.overprecise argument = false ∧ ∃ body, d.convert? argument = some body ∧
        ¬(body.length < d.width ∧ longestText < d.width) ∧ d.pad body = text := by
  unfold write
  by_cases hplaces : d.overprecise argument = true
  · simp [hplaces]
  · simp only [hplaces, Bool.false_eq_true, if_false, true_and]
    cases d.convert? argument with
    | none => simp
    | some body =>
      by_cases hsize : body.length < d.width ∧ longestText < d.width
      · simp only [if_pos hsize]
        constructor
        · rintro ⟨⟩
        · rintro ⟨_, ⟨⟩, hfits, -⟩
          exact absurd hsize hfits
      · simp only [if_neg hsize]
        constructor
        · rintro ⟨⟩
          exact ⟨body, rfl, hsize, rfl⟩
        · rintro ⟨_, ⟨⟩, -, rfl⟩
          rfl

/-- A directive that does not overrun has what it stands for written. -/
theorem write_of_not_overruns {body : List Char} (hm : m.Readable)
    (hbody : (m.directive conversion).convert? argument = some body)
    (h : ¬∃ cause, Overruns argument m conversion.letter cause) :
    (m.directive conversion).write argument = .ok ((m.directive conversion).pad body) := by
  have hplaces : (m.directive conversion).overprecise argument = false :=
    Bool.eq_false_iff.2 fun hplaces => h ⟨_, .places hm hplaces⟩
  refine write_eq_ok_iff.2 ⟨hplaces, body, hbody, fun hsize => h ?_, rfl⟩
  exact ⟨_, .capacity hm hplaces hbody hsize.1 hsize.2⟩

theorem expand_letter (conversion : Conversion) :
    expand argument converted m conversion.letter =
      match converted, build? m conversion with
      | false, some d => (d.write argument).map (·, true)
      | _, _ => .error .unfit := by
  cases conversion <;> rfl

theorem map_eq_ok_iff {ε α β : Type} {f : α → β} {x : Except ε α} {b : β} :
    x.map f = .ok b ↔ ∃ a, x = .ok a ∧ f a = b := by
  cases x <;> simp [Except.map]

theorem map_eq_error_iff {ε α β : Type} {f : α → β} {x : Except ε α} {e : ε} :
    x.map f = .error e ↔ x = .error e := by
  cases x <;> simp [Except.map]

/-- A directive prints what it stands for, and converts the argument at most once. -/
theorem expand_eq_ok_iff (hm : m.Spelled) (hc : c ∈ letters) {text : List Char} {after : Bool} :
    expand argument converted m c = .ok (text, after) ↔
      (Stands argument m c 0 text ∧ after = converted) ∨
        (Stands argument m c 1 text ∧ (¬∃ cause, Overruns argument m c cause) ∧
          converted = false ∧ after = true) := by
  constructor
  · intro h
    obtain rfl | rfl | ⟨conversion, rfl⟩ := letter_cases hc
    · cases h
      exact .inl ⟨.percent, rfl⟩
    · cases h
      exact .inl ⟨.newline, rfl⟩
    · rw [expand_letter] at h
      split at h
      · rename_i d hd
        obtain ⟨hread, rfl⟩ := (build?_eq_some_iff hm).1 hd
        obtain ⟨_, hwrite, htext⟩ := map_eq_ok_iff.1 h
        cases htext
        obtain ⟨-, body, hbody, -, rfl⟩ := write_eq_ok_iff.1 hwrite
        refine .inr ⟨.converted hread hbody, fun ⟨cause, hover⟩ => ?_, rfl, rfl⟩
        cases hwrite.symm.trans (overruns_iff.1 hover).2
      · cases h
  · rintro (⟨hstands, rfl⟩ | ⟨hstands, hover, rfl, rfl⟩)
    · cases hstands <;> rfl
    · cases hstands with
      | converted hread hbody =>
        rw [expand_letter, (build?_eq_some_iff hm).2 ⟨hread, rfl⟩]
        exact map_eq_ok_iff.2 ⟨_, write_of_not_overruns hread hbody hover, rfl⟩

/-- The program ends in the first directive that converts the argument, if that overruns. -/
theorem expand_eq_crash_iff (hm : m.Spelled) (hc : c ∈ letters) :
    expand argument converted m c = .error (.crash cause) ↔
      converted = false ∧ Overruns argument m c cause := by
  constructor
  · intro h
    obtain rfl | rfl | ⟨conversion, rfl⟩ := letter_cases hc
    · cases h
    · cases h
    · rw [expand_letter] at h
      split at h
      · rename_i d hd
        obtain ⟨hread, rfl⟩ := (build?_eq_some_iff hm).1 hd
        exact ⟨rfl, overruns_iff.2 ⟨hread, map_eq_error_iff.1 h⟩⟩
      · cases h
  · rintro ⟨rfl, hover⟩
    obtain ⟨conversion, rfl⟩ := hover.exists_letter
    obtain ⟨hread, hcrash⟩ := overruns_iff.1 hover
    rw [expand_letter, (build?_eq_some_iff hm).2 ⟨hread, rfl⟩]
    exact map_eq_error_iff.2 hcrash

end Directive

end DataGrid
