import DataGrid.Proofs.ExpandedDirectives

/-!
# The grammar of patterns

A pattern is read by searching for directives, and what lies between two of them may hold no
percent sign. The grammar below says the same without a search: from left to right, a pattern is
made of characters that are no percent sign and of directives. The two agree because a directive
can be read in one way only. A second grammar says in which patterns the program ends: those that
come to a conversion that overruns.
-/

namespace DataGrid

open Text Number

namespace Directive

/-! ## The grammar -/

/-- What a pattern prints, and how often it converts the argument. -/
inductive Prints (argument : Argument) : List Char → Nat → List Char → Prop where
  | nil : Prints argument [] 0 []
  | literal {c : Char} {s out : List Char} {k : Nat} (hc : c ≠ '%')
      (hrest : Prints argument s k out) : Prints argument (c :: s) k (c :: out)
  | directive {m : Modifiers} {c : Char} {s text out : List Char} {k l : Nat} (hm : m.Spelled)
      (htext : Stands argument m c k text) (hrest : Prints argument s l out) :
      Prints argument ('%' :: (m.chars ++ c :: s)) (k + l) (text ++ out)

/-- A pattern in whose first conversion the program ends, whatever stands behind that. -/
inductive Ends (argument : Argument) : List Char → Crash → Prop where
  | literal {c : Char} {s : List Char} {cause : Crash} (hc : c ≠ '%')
      (hrest : Ends argument s cause) : Ends argument (c :: s) cause
  | escape {m : Modifiers} {c : Char} {s text : List Char} {cause : Crash} (hm : m.Spelled)
      (htext : Stands argument m c 0 text) (hrest : Ends argument s cause) :
      Ends argument ('%' :: (m.chars ++ c :: s)) cause
  | conversion {m : Modifiers} {c : Char} {s : List Char} {cause : Crash} (hm : m.Spelled)
      (hends : Overruns argument m c cause) : Ends argument ('%' :: (m.chars ++ c :: s)) cause

/-- A text with its percent signs doubled. -/
def doubled (s : List Char) : List Char := s.flatMap fun c => if c = '%' then ['%', '%'] else [c]

variable {argument : Argument} {m : Modifiers} {c : Char} {s rest : List Char}
variable {conversion : Conversion} {cause : Crash} {converted : Bool}

/-! ## Reading patterns -/

theorem search?_literal (hc : c ≠ '%') :
    search? (c :: s) = (search? s).map fun (before, found) => (c :: before, found) := by
  have hnone : take? (c :: s) = none := by
    refine Option.eq_none_iff_forall_ne_some.2 fun ⟨⟨m, d⟩, rest⟩ htake => hc ?_
    exact (List.cons.inj (take?_eq_some_iff.1 htake).2.2).1
  rw [search?, hnone]

theorem search?_length {before after : List Char} {found : Modifiers × Char}
    (h : search? s = some (before, found, after)) : after.length < s.length := by
  induction s generalizing before with
  | nil => cases h
  | cons c s ih =>
    rw [search?] at h
    split at h
    · rename_i htake
      cases h
      obtain ⟨-, -, hs⟩ := take?_eq_some_iff.1 htake
      rw [hs]
      simp
      omega
    · obtain ⟨⟨before, _, after⟩, hsearch, hparts⟩ := Option.map_eq_some_iff.1 h
      cases hparts
      exact (ih hsearch).trans (Nat.lt_succ_self _)

/-- Fuel beyond the length of the text changes nothing. -/
theorem formatWithin_eq {fuel fuel' : Nat} (h : s.length < fuel) (h' : s.length < fuel') :
    formatWithin argument fuel converted s = formatWithin argument fuel' converted s := by
  induction fuel generalizing s fuel' converted with
  | zero => omega
  | succ fuel ih =>
    obtain ⟨fuel', rfl⟩ := Nat.exists_eq_add_one.2 (Nat.zero_lt_of_lt h')
    rw [formatWithin, formatWithin]
    cases hsearch : search? s with
    | none => rfl
    | some found =>
      obtain ⟨before, ⟨m, c⟩, after⟩ := found
      have hlength := search?_length hsearch
      have hrest : ∀ converted, formatWithin argument fuel converted after =
          formatWithin argument fuel' converted after := fun _ => ih (by omega) (by omega)
      simp only [hrest]

/-- The text of what is left of a pattern, with as much fuel as it needs. -/
def formatFrom (argument : Argument) (converted : Bool) (s : List Char) :
    Except NoText (List Char) :=
  formatWithin argument (s.length + 1) converted s

theorem formatFrom_of_search?_none (h : search? s = none) :
    formatFrom argument converted s = literal s := by
  rw [formatFrom, formatWithin, h]

theorem formatFrom_of_search? {before after : List Char}
    (h : search? s = some (before, (m, c), after)) :
    formatFrom argument converted s =
      (literal before).bind fun before => (expand argument converted m c).bind fun expanded =>
        (formatFrom argument expanded.2 after).map fun rest => before ++ expanded.1 ++ rest := by
  have hfuel : ∀ converted, formatWithin argument s.length converted after =
      formatFrom argument converted after := fun _ =>
    formatWithin_eq (search?_length h) (Nat.lt_succ_self _)
  rw [formatFrom, formatWithin, h]
  simp only [hfuel]
  rfl

theorem literal_cons (hc : c ≠ '%') : literal (c :: s) = (literal s).map (c :: ·) := by
  unfold literal
  by_cases hs : '%' ∈ s
  · simp [hs, Except.map]
  · simp [hs, hc.symm, Except.map]

theorem literal_percent (s : List Char) : literal ('%' :: s) = .error .unfit :=
  if_pos List.mem_cons_self

theorem formatFrom_nil : formatFrom argument converted [] = .ok [] := rfl

/-- A character that is no percent sign stands for itself. -/
theorem formatFrom_literal (hc : c ≠ '%') :
    formatFrom argument converted (c :: s) = (formatFrom argument converted s).map (c :: ·) := by
  have hsearch := search?_literal (s := s) hc
  cases h : search? s with
  | none =>
    rw [h] at hsearch
    rw [formatFrom_of_search?_none hsearch, formatFrom_of_search?_none h, literal_cons hc]
  | some found =>
    obtain ⟨before, ⟨m, d⟩, after⟩ := found
    rw [h] at hsearch
    rw [formatFrom_of_search? hsearch, formatFrom_of_search? h, literal_cons hc]
    cases literal before with
    | error e => rfl
    | ok before =>
      cases expand argument converted m d with
      | error e => rfl
      | ok expanded =>
        simp only [Except.bind, Except.map]
        cases formatFrom argument expanded.2 after <;> rfl

theorem formatFrom_directive (hm : m.Spelled) (hc : c ∈ letters) :
    formatFrom argument converted ('%' :: (m.chars ++ c :: s)) =
      (expand argument converted m c).bind fun expanded =>
        (formatFrom argument expanded.2 s).map (expanded.1 ++ ·) := by
  have hsearch : search? ('%' :: (m.chars ++ c :: s)) = some ([], (m, c), s) := by
    rw [search?, take?_directive hm hc]
  exact formatFrom_of_search? hsearch

/-- A percent sign that begins no directive is found in what is left. -/
theorem formatFrom_stray (h : take? ('%' :: s) = none) :
    formatFrom argument converted ('%' :: s) = .error .unfit := by
  cases hrest : search? s with
  | none =>
    have hsearch : search? ('%' :: s) = none := by
      rw [search?, h, hrest]
      rfl
    rw [formatFrom_of_search?_none hsearch, literal_percent]
  | some found =>
    obtain ⟨before, ⟨m, c⟩, after⟩ := found
    have hsearch : search? ('%' :: s) = some ('%' :: before, (m, c), after) := by
      rw [search?, h, hrest]
      rfl
    rw [formatFrom_of_search? hsearch, literal_percent]
    rfl

/-- What is to be shown of every text, as a pattern is read: for none, for a character that is no
percent sign, for a directive and for a percent sign that begins none. -/
@[elab_as_elim]
theorem reading_induction {motive : List Char → Prop} (nil : motive [])
    (literal : ∀ c s, c ≠ '%' → motive s → motive (c :: s))
    (directive : ∀ (m : Modifiers) c s, m.Spelled → c ∈ letters → motive s →
      motive ('%' :: (m.chars ++ c :: s)))
    (stray : ∀ s, take? ('%' :: s) = none → motive ('%' :: s)) (s : List Char) : motive s := by
  -- What follows a directive is shorter than the pattern, though not its tail.
  induction hn : s.length using Nat.strong_induction_on generalizing s with
  | _ n ih =>
    cases s with
    | nil => exact nil
    | cons c s =>
      by_cases hc : c = '%'
      · subst hc
        cases htake : take? ('%' :: s) with
        | none => exact stray s htake
        | some found =>
          obtain ⟨⟨m, letter⟩, rest⟩ := found
          obtain ⟨hm, hletter, hs⟩ := take?_eq_some_iff.1 htake
          have hlength : rest.length < n := by
            rw [← hn, hs]
            simp
            omega
          rw [hs]
          exact directive m letter rest hm hletter (ih _ hlength rest rfl)
      · have hlength : s.length < n := hn ▸ Nat.lt_succ_self _
        exact literal c s hc (ih _ hlength s rfl)

/-! ## Inversion of the grammars -/

theorem prints_nil_iff {k : Nat} {out : List Char} :
    Prints argument [] k out ↔ k = 0 ∧ out = [] := by
  constructor
  · rintro ⟨⟩
    exact ⟨rfl, rfl⟩
  · rintro ⟨rfl, rfl⟩
    exact .nil

theorem prints_literal_iff (hc : c ≠ '%') {k : Nat} {out : List Char} :
    Prints argument (c :: s) k out ↔ ∃ rest, Prints argument s k rest ∧ c :: rest = out := by
  constructor
  · rintro (_ | ⟨_, hrest⟩ | _)
    · exact ⟨_, hrest, rfl⟩
    · exact absurd rfl hc
  · rintro ⟨rest, hrest, rfl⟩
    exact .literal hc hrest

theorem not_ends_nil : ¬Ends argument [] cause := by
  rintro ⟨⟩

theorem ends_literal_iff (hc : c ≠ '%') : Ends argument (c :: s) cause ↔ Ends argument s cause := by
  constructor
  · rintro (⟨_, hrest⟩ | _ | _)
    · exact hrest
    · exact absurd rfl hc
    · exact absurd rfl hc
  · exact .literal hc

theorem prints_directive_iff (hm : m.Spelled) (hc : c ∈ letters) {k : Nat} {out : List Char} :
    Prints argument ('%' :: (m.chars ++ c :: s)) k out ↔
      ∃ i j text rest, Stands argument m c i text ∧ Prints argument s j rest ∧ i + j = k ∧
        text ++ rest = out := by
  constructor
  · intro h
    generalize hs : m.chars ++ c :: s = after at h
    cases h with
    | literal hpercent => exact absurd rfl hpercent
    | directive hm' htext hrest =>
      obtain ⟨rfl, rfl, rfl⟩ := directive_unique hm hc hm' htext.mem_letters hs
      exact ⟨_, _, _, _, htext, hrest, rfl, rfl⟩
  · rintro ⟨i, j, text, rest, htext, hrest, rfl, rfl⟩
    exact .directive hm htext hrest

theorem ends_directive_iff (hm : m.Spelled) (hc : c ∈ letters) :
    Ends argument ('%' :: (m.chars ++ c :: s)) cause ↔
      (∃ text, Stands argument m c 0 text ∧ Ends argument s cause) ∨
        Overruns argument m c cause := by
  constructor
  · intro h
    generalize hs : m.chars ++ c :: s = after at h
    cases h with
    | literal hpercent => exact absurd rfl hpercent
    | escape hm' htext hrest =>
      obtain ⟨rfl, rfl, rfl⟩ := directive_unique hm hc hm' htext.mem_letters hs
      exact .inl ⟨_, htext, hrest⟩
    | conversion hm' hends =>
      obtain ⟨conversion, rfl⟩ := hends.exists_letter
      obtain ⟨rfl, rfl, rfl⟩ :=
        directive_unique hm hc hm' (letter_mem_letters conversion) hs
      exact .inr hends
  · rintro (⟨text, htext, hrest⟩ | hends)
    · exact .escape hm htext hrest
    · exact .conversion hm hends

theorem not_prints_stray (h : take? ('%' :: s) = none) {k : Nat} {out : List Char} :
    ¬Prints argument ('%' :: s) k out := by
  rintro (_ | ⟨hpercent, _⟩ | ⟨hm, htext, _⟩)
  · exact hpercent rfl
  · rw [take?_directive hm htext.mem_letters] at h
    cases h

theorem not_ends_stray (h : take? ('%' :: s) = none) : ¬Ends argument ('%' :: s) cause := by
  rintro (⟨hpercent, _⟩ | ⟨hm, htext, _⟩ | ⟨hm, hends⟩)
  · exact hpercent rfl
  · rw [take?_directive hm htext.mem_letters] at h
    cases h
  · obtain ⟨conversion, rfl⟩ := hends.exists_letter
    rw [take?_directive hm (letter_mem_letters conversion)] at h
    cases h

/-! ## Printing -/

theorem formatFrom_directive_eq_ok_iff (hm : m.Spelled) (hc : c ∈ letters) {out : List Char} :
    formatFrom argument converted ('%' :: (m.chars ++ c :: s)) = .ok out ↔
      ∃ text after, expand argument converted m c = .ok (text, after) ∧
        ∃ rest, formatFrom argument after s = .ok rest ∧ text ++ rest = out := by
  rw [formatFrom_directive hm hc]
  cases expand argument converted m c with
  | error e => simp [Except.bind]
  | ok expanded =>
    obtain ⟨text, after⟩ := expanded
    simp only [Except.bind, map_eq_ok_iff, Except.ok.injEq, Prod.mk.injEq]
    constructor
    · exact fun h => ⟨text, after, ⟨rfl, rfl⟩, h⟩
    · rintro ⟨_, _, ⟨rfl, rfl⟩, h⟩
      exact h

theorem formatFrom_directive_eq_error_iff (hm : m.Spelled) (hc : c ∈ letters) {e : NoText} :
    formatFrom argument converted ('%' :: (m.chars ++ c :: s)) = .error e ↔
      expand argument converted m c = .error e ∨
        ∃ text after, expand argument converted m c = .ok (text, after) ∧
          formatFrom argument after s = .error e := by
  rw [formatFrom_directive hm hc]
  cases expand argument converted m c with
  | error e => simp [Except.bind]
  | ok expanded =>
    obtain ⟨text, after⟩ := expanded
    simp only [Except.bind, map_eq_error_iff, reduceCtorEq, false_or, Except.ok.injEq,
      Prod.mk.injEq]
    constructor
    · exact fun h => ⟨text, after, ⟨rfl, rfl⟩, h⟩
    · rintro ⟨_, _, ⟨rfl, rfl⟩, h⟩
      exact h

/-- The program ends in what is left of a pattern exactly if it comes to a first conversion that
overruns. -/
theorem formatFrom_eq_crash_iff :
    formatFrom argument converted s = .error (.crash cause) ↔
      converted = false ∧ Ends argument s cause := by
  induction s using reading_induction generalizing converted with
  | nil =>
    rw [formatFrom_nil]
    exact ⟨fun h => (by cases h), fun hends => absurd hends.2 not_ends_nil⟩
  | literal c s hc ih => rw [formatFrom_literal hc, map_eq_error_iff, ih, ends_literal_iff hc]
  | stray s h =>
    rw [formatFrom_stray h]
    exact ⟨fun h => (by cases h), fun hends => absurd hends.2 (not_ends_stray h)⟩
  | directive m c s hm hc ih =>
    simp only [formatFrom_directive_eq_error_iff hm hc, ends_directive_iff hm hc,
      expand_eq_crash_iff hm hc, expand_eq_ok_iff hm hc, ih]
    constructor
    · rintro (⟨hfirst, hover⟩ | ⟨text, after, hstands | hstands, hafter, hends⟩)
      · exact ⟨hfirst, .inr hover⟩
      · exact ⟨hstands.2 ▸ hafter, .inl ⟨text, hstands.1, hends⟩⟩
      · cases hafter.symm.trans hstands.2.2.2
    · rintro ⟨hfirst, ⟨text, htext, hends⟩ | hover⟩
      · exact .inr ⟨text, converted, .inl ⟨htext, rfl⟩, hfirst, hends⟩
      · exact .inl ⟨hfirst, hover⟩

/-- After a conversion, what is left of a pattern has a text exactly if it converts nothing. -/
theorem formatFrom_converted_eq_ok_iff {out : List Char} :
    formatFrom argument true s = .ok out ↔ Prints argument s 0 out := by
  induction s using reading_induction generalizing out with
  | nil =>
    rw [formatFrom_nil, prints_nil_iff]
    exact ⟨fun h => ⟨rfl, (Except.ok.inj h).symm⟩, fun h => congrArg _ h.2.symm⟩
  | literal c s hc ih =>
    simp only [formatFrom_literal hc, map_eq_ok_iff, ih, prints_literal_iff hc]
  | stray s h =>
    rw [formatFrom_stray h]
    exact ⟨fun h => (by cases h), fun hprints => absurd hprints (not_prints_stray h)⟩
  | directive m c s hm hc ih =>
    rw [formatFrom_directive_eq_ok_iff hm hc, prints_directive_iff hm hc]
    simp only [expand_eq_ok_iff hm hc]
    constructor
    · rintro ⟨text, _, ⟨hstands, rfl⟩ | ⟨-, -, hfirst, -⟩, rest, hrest, hout⟩
      · exact ⟨0, 0, text, rest, hstands, ih.1 hrest, rfl, hout⟩
      · cases hfirst
    · rintro ⟨i, j, text, rest, hstands, hrest, hk, hout⟩
      obtain ⟨rfl, rfl⟩ := Nat.add_eq_zero_iff.1 hk
      exact ⟨text, true, .inl ⟨hstands, rfl⟩, rest, ih.2 hrest, hout⟩

/-- Before any conversion, what is left of a pattern has a text exactly if it converts the argument
at most once, and the program does not end in that. -/
theorem formatFrom_eq_ok_iff {out : List Char} :
    formatFrom argument false s = .ok out ↔
      (∃ k ≤ 1, Prints argument s k out) ∧ ¬∃ cause, Ends argument s cause := by
  induction s using reading_induction generalizing out with
  | nil =>
    simp only [formatFrom_nil, prints_nil_iff, not_ends_nil, exists_false, not_false_eq_true,
      and_true, Except.ok.injEq]
    constructor
    · rintro rfl
      exact ⟨0, Nat.zero_le 1, rfl, rfl⟩
    · rintro ⟨_, -, -, rfl⟩
      rfl
  | literal c s hc ih =>
    simp only [formatFrom_literal hc, map_eq_ok_iff, ih, prints_literal_iff hc, ends_literal_iff hc]
    constructor
    · rintro ⟨rest, ⟨⟨k, hk, hprints⟩, hends⟩, hout⟩
      exact ⟨⟨k, hk, rest, hprints, hout⟩, hends⟩
    · rintro ⟨⟨k, hk, rest, hprints, hout⟩, hends⟩
      exact ⟨rest, ⟨⟨k, hk, hprints⟩, hends⟩, hout⟩
  | stray s h =>
    rw [formatFrom_stray h]
    exact ⟨fun h => (by cases h), fun ⟨⟨_, _, hprints⟩, _⟩ => absurd hprints (not_prints_stray h)⟩
  | directive m c s hm hc ih =>
    rw [formatFrom_directive_eq_ok_iff hm hc]
    simp only [expand_eq_ok_iff hm hc, prints_directive_iff hm hc, ends_directive_iff hm hc]
    -- Either the directive converts nothing, or it does and what follows converts nothing more.
    constructor
    · rintro ⟨text, _, ⟨hstands, rfl⟩ | ⟨hstands, hover, -, rfl⟩, rest, hrest, rfl⟩
      · obtain ⟨⟨k, hk, hprints⟩, hends⟩ := ih.1 hrest
        refine ⟨⟨k, hk, 0, k, text, rest, hstands, hprints, Nat.zero_add k, rfl⟩, ?_⟩
        rintro ⟨cause, ⟨_, -, hrests⟩ | hover⟩
        · exact hends ⟨cause, hrests⟩
        · obtain ⟨conversion, hletter⟩ := hover.exists_letter
          exact hstands.ne_letter conversion hletter
      · have hprints := formatFrom_converted_eq_ok_iff.1 hrest
        refine ⟨⟨1, le_rfl, 1, 0, text, rest, hstands, hprints, rfl, rfl⟩, ?_⟩
        rintro ⟨cause, ⟨_, hnone, -⟩ | hends⟩
        · obtain ⟨conversion, hletter⟩ := hstands.exists_letter
          exact hnone.ne_letter conversion hletter
        · exact hover ⟨cause, hends⟩
    · rintro ⟨⟨k, hk, i, j, text, rest, hstands, hprints, rfl, rfl⟩, hends⟩
      obtain rfl | rfl : i = 0 ∨ i = 1 := by omega
      · have hrest : ¬∃ cause, Ends argument s cause := fun ⟨cause, hrest⟩ =>
          hends ⟨cause, .inl ⟨text, hstands, hrest⟩⟩
        exact ⟨text, false, .inl ⟨hstands, rfl⟩, rest, ih.2 ⟨⟨j, by omega, hprints⟩, hrest⟩, rfl⟩
      · obtain rfl : j = 0 := by omega
        have hover : ¬∃ cause, Overruns argument m c cause := fun ⟨cause, hover⟩ =>
          hends ⟨cause, .inr hover⟩
        exact ⟨text, true, .inr ⟨hstands, hover, trivial, rfl⟩, rest,
          formatFrom_converted_eq_ok_iff.2 hprints, rfl⟩

/-- The texts of a pattern that is one conversion. -/
theorem format_conversion_iff (hm : m.Spelled) {text : List Char} :
    format ('%' :: (m.chars ++ [conversion.letter])) argument = .ok text ↔
      m.Readable ∧ (m.directive conversion).write argument = .ok text := by
  change formatFrom argument false ('%' :: (m.chars ++ [conversion.letter])) = .ok text ↔ _
  rw [formatFrom_directive_eq_ok_iff hm (letter_mem_letters conversion), expand_letter]
  constructor
  · rintro ⟨text, after, hexpand, rest, hrest, rfl⟩
    split at hexpand
    · rename_i d hd
      obtain ⟨hread, rfl⟩ := (build?_eq_some_iff hm).1 hd
      obtain ⟨_, hwrite, htext⟩ := map_eq_ok_iff.1 hexpand
      cases htext
      cases hrest
      exact ⟨hread, (List.append_nil text).symm ▸ hwrite⟩
    · cases hexpand
  · rintro ⟨hread, hwrite⟩
    refine ⟨text, true, ?_, [], rfl, List.append_nil text⟩
    rw [(build?_eq_some_iff hm).2 ⟨hread, rfl⟩]
    exact map_eq_ok_iff.2 ⟨_, hwrite, rfl⟩

/-! ## Doubled percent signs -/

theorem formatFrom_doubled_append (a s : List Char) :
    formatFrom argument converted (doubled a ++ s) =
      (formatFrom argument converted s).map (a ++ ·) := by
  induction a with
  | nil => cases h : formatFrom argument converted s <;> exact h
  | cons c a ih =>
    have hcons : formatFrom argument converted (doubled (c :: a) ++ s) =
        (formatFrom argument converted (doubled a ++ s)).map (c :: ·) := by
      unfold doubled
      rw [List.flatMap_cons]
      by_cases hc : c = '%'
      · subst hc
        have hm : (⟨[], [], none⟩ : Modifiers).Spelled :=
          ⟨⟨by simp, by simp, by simp⟩, by simp⟩
        exact formatFrom_directive (c := '%') hm (by decide)
      · rw [if_neg hc]
        exact formatFrom_literal hc
    rw [hcons, ih]
    cases formatFrom argument converted s <;> rfl

theorem formatFrom_doubled (a : List Char) : formatFrom argument converted (doubled a) = .ok a := by
  have h : formatFrom argument converted (doubled a ++ []) =
      (formatFrom argument converted []).map (a ++ ·) := formatFrom_doubled_append a []
  rw [List.append_nil, formatFrom_nil] at h
  exact h.trans (congrArg Except.ok (List.append_nil a))

/-- Texts with doubled percent signs around a directive print themselves around its text. -/
theorem format_doubled_directive (hm : m.Spelled) (hc : c ∈ letters) (a b : List Char)
    (argument : Argument) :
    format (doubled a ++ '%' :: (m.chars ++ c :: doubled b)) argument =
      (format ('%' :: (m.chars ++ [c])) argument).map fun out => a ++ out ++ b := by
  change formatFrom argument false (doubled a ++ '%' :: (m.chars ++ c :: doubled b)) =
    (formatFrom argument false ('%' :: (m.chars ++ [c]))).map fun out => a ++ out ++ b
  rw [formatFrom_doubled_append, formatFrom_directive hm hc, formatFrom_directive hm hc]
  cases expand argument false m c with
  | error e => rfl
  | ok expanded =>
    obtain ⟨text, after⟩ := expanded
    have htext : a ++ (text ++ b) = a ++ (text ++ []) ++ b := by simp
    simp only [Except.bind, formatFrom_doubled, formatFrom_nil, Except.map, htext]

/-! ## Exactness -/

/-- **Patterns are read by their grammar.** A pattern has a text with an argument exactly if it is
made of characters that are no percent sign and of directives of which at most one converts the
argument, and the program does not end in that one; the text is then what these print, one behind
the other. It ends exactly in the patterns that come to a first conversion with more places or more
width than a text can have, though the rest be no pattern. Between the percent sign and the letter
of a directive, flags, the digits of a width and those of a precision may stand in any number, and
they are read in one way. A text with its percent signs doubled prints itself, alone and in front of
and behind any directive. -/
theorem format_exact (argument : Argument) :
    (∀ pattern out, format pattern argument = .ok out ↔
      (∃ k ≤ 1, Prints argument pattern k out) ∧ ¬∃ cause, Ends argument pattern cause) ∧
    (∀ pattern cause, format pattern argument = .error (.crash cause) ↔
      Ends argument pattern cause) ∧
    (∀ m : Modifiers, m.Formed → ∃! n : Modifiers, n.Spelled ∧ n.chars = m.chars) ∧
    (∀ a, format (doubled a) argument = .ok a) ∧
    (∀ (m : Modifiers) (c : Char), m.Spelled → c ∈ letters → ∀ a b,
      format (doubled a ++ '%' :: (m.chars ++ c :: doubled b)) argument =
        (format ('%' :: (m.chars ++ [c])) argument).map fun out => a ++ out ++ b) :=
  ⟨fun _ _ => formatFrom_eq_ok_iff,
    fun _ _ => formatFrom_eq_crash_iff.trans (and_iff_right rfl),
    fun _ h => h.existsUnique_spelled,
    fun _ => formatFrom_doubled _,
    fun _ _ hm hc a b => format_doubled_directive hm hc a b argument⟩

/-- A width of twelve places behind a zero and a comma, and two places behind the point. -/
def twelveWide : Modifiers := ⟨['0', ','], ['1', '2'], some ['2']⟩

/-- The number 1234.5. -/
def someAmount : Decimal := ⟨false, 1234500, 3, by decide, by decide⟩

theorem spelled_twelveWide : twelveWide.Spelled :=
  ⟨formed_of_all (by decide) (by decide +kernel) (by decide +kernel), by decide⟩

/-- An amount, filled with zeros and grouped, between two texts that hold percent signs, and a zero
that its place in front of a width makes a flag. -/
theorem format_exact_of_amount :
    twelveWide.Spelled ∧ 'f' ∈ letters ∧
      format "50%% of %0,12.2f%%".toList (.number someAmount) =
        .ok "50% of 00001,234.50%".toList ∧
      (∃ k ≤ 1, Prints (.number someAmount) "50%% of %0,12.2f%%".toList k
        "50% of 00001,234.50%".toList) ∧
      (⟨[','], ['0', '8'], none⟩ : Modifiers).Formed ∧
      ∃! n : Modifiers, n.Spelled ∧ n.chars = [',', '0', '8'] := by
  obtain ⟨hgrammar, -, hspelled, -, hdoubled⟩ := format_exact (.number someAmount)
  have hletter : 'f' ∈ letters := by decide
  have hdirective : format ('%' :: (twelveWide.chars ++ ['f'])) (.number someAmount) =
      .ok "00001,234.50".toList := by decide +kernel
  have hpattern : doubled "50% of ".toList ++ '%' :: (twelveWide.chars ++ 'f' :: doubled ['%']) =
      "50%% of %0,12.2f%%".toList := by decide +kernel
  have htext := hdoubled twelveWide 'f' spelled_twelveWide hletter "50% of ".toList ['%']
  rw [hdirective, hpattern] at htext
  have hformed : (⟨[','], ['0', '8'], none⟩ : Modifiers).Formed :=
    formed_of_all (by decide) (by decide +kernel) (by decide)
  exact ⟨spelled_twelveWide, hletter, htext, ((hgrammar _ _).1 htext).1, hformed,
    hspelled _ hformed⟩

/-- The greatest width that is read. -/
def widest : Modifiers := ⟨[], "18446744073709551615".toList, none⟩

theorem spelled_widest : widest.Spelled :=
  ⟨formed_of_all (by decide) (by decide +kernel) (by decide), by decide +kernel⟩

theorem readable_widest : widest.Readable :=
  ⟨⟨List.all_eq_true.1 (by decide +kernel), by decide +kernel⟩, by simp [widest]⟩

/-- The pattern `%18446744073709551615d` and the number 1: by the grammar there is a text, but no
text is so long, and the program ends. -/
theorem not_format_exact : ¬ ∀ (pattern : List Char) (argument : Argument) (out : List Char),
    format pattern argument = .ok out ↔ ∃ k ≤ 1, Prints argument pattern k out := by
  intro hclaim
  have hbody : (widest.directive .whole).convert? (.number (.ofInt64 1)) = some ['1'] := by
    decide +kernel
  have hover : Overruns (.number (.ofInt64 1)) widest 'd' .capacityOverflow :=
    .capacity (c := .whole) readable_widest rfl hbody (by decide +kernel) (by decide +kernel)
  have hends : format ('%' :: (widest.chars ++ ['d'])) (.number (.ofInt64 1)) =
      .error (.crash .capacityOverflow) :=
    formatFrom_eq_crash_iff.2 ⟨rfl, .conversion spelled_widest hover⟩
  have hprints := Prints.directive spelled_widest (.converted readable_widest hbody) .nil
  have htext := (hclaim _ _ _).2 ⟨1, le_rfl, hprints⟩
  cases hends.symm.trans htext

end Directive

end DataGrid
