import DataGrid.Filter.Settings
import DataGrid.Proofs.OperatorCodes

/-!
# The values of filter entries

The value of a filter entry is cut at its first separator, so a column that ends with an
underscore or holds a separator loses its end to what follows. A code has no underscore, and the
filter text behind the second separator may hold anything. So an entry's value is read as an option
exactly if it is written in this form with a code of the option's operator, and writing an option
and reading it back succeeds exactly for the columns that the first separator cannot cut short.
-/

namespace DataGrid.FilterOption

/-- Column names that end where the separator behind them begins. -/
structure Separable (column : String) : Prop where
  nonempty : column ≠ ""
  noSeparator : ¬ ['_', '_'] <:+: column.toList
  noUnderscore : ¬ ['_'] <:+ column.toList

/-! ## The first separator -/

section Separator

variable {s before after column code value : List Char}

theorem cutSeparator_append {before : List Char} (hinside : ¬ ['_', '_'] <:+: before)
    (hend : ¬ ['_'] <:+ before) (after : List Char) :
    cutSeparator (before ++ '_' :: '_' :: after) = some (before, after) := by
  induction before with
  | nil => rfl
  | cons a before ih =>
    have htail := ih (fun h => hinside (h.trans (List.suffix_cons a before).isInfix))
      (fun h => hend (h.trans (List.suffix_cons a before)))
    cases before with
    | nil =>
      have ha : a ≠ '_' := by
        rintro rfl
        exact hend List.suffix_rfl
      rw [List.nil_append] at htail
      rw [List.singleton_append, cutSeparator, if_neg fun h => ha h.1, htail]
      rfl
    | cons b before =>
      have hab : ¬ (a = '_' ∧ b = '_') := by
        rintro ⟨rfl, rfl⟩
        exact hinside (List.prefix_append ['_', '_'] before).isInfix
      rw [List.cons_append] at htail
      rw [List.cons_append, List.cons_append, cutSeparator, if_neg hab, htail]
      rfl

theorem noSeparator_cons {a : Char} (hinside : ¬ ['_', '_'] <:+: before)
    (hhead : ∀ rest, ¬ (a = '_' ∧ before = '_' :: rest)) : ¬ ['_', '_'] <:+: a :: before := by
  rw [List.infix_cons_iff, not_or]
  refine ⟨?_, hinside⟩
  rintro ⟨rest, hrest⟩
  exact hhead rest ⟨(List.cons.inj hrest).1.symm, (List.cons.inj hrest).2.symm⟩

theorem noUnderscore_cons {a : Char} (hend : ¬ ['_'] <:+ before)
    (hlast : ¬ (a = '_' ∧ before = [])) : ¬ ['_'] <:+ a :: before := by
  rw [List.suffix_cons_iff, not_or]
  refine ⟨?_, hend⟩
  rintro hall
  exact hlast ⟨(List.cons.inj hall).1.symm, (List.cons.inj hall).2.symm⟩

/-- A text is cut at its first separator: none stands in what is before it, and none begins
there. -/
theorem cutSeparator_inv (h : cutSeparator s = some (before, after)) :
    s = before ++ '_' :: '_' :: after ∧ ¬ ['_', '_'] <:+: before ∧ ¬ ['_'] <:+ before := by
  fun_induction cutSeparator s generalizing before with
  | case1 | case2 => cases h
  | case3 a b rest hab =>
    cases h
    obtain ⟨rfl, rfl⟩ := hab
    exact ⟨rfl, by decide, by decide⟩
  | case4 a b rest hab ih =>
    obtain ⟨⟨before, _⟩, hcut, hparts⟩ := Option.map_eq_some_iff.1 h
    cases hparts
    obtain ⟨hs, hinside, hend⟩ := ih hcut
    refine ⟨congrArg (a :: ·) hs, noSeparator_cons hinside ?_, noUnderscore_cons hend ?_⟩
    · rintro rest' ⟨ha, rfl⟩
      exact hab ⟨ha, (List.cons.inj hs).1⟩
    · rintro ⟨ha, rfl⟩
      exact hab ⟨ha, (List.cons.inj hs).1⟩

theorem skipSeparator_inv (h : skipSeparator s = some value) : s = '_' :: '_' :: value := by
  unfold skipSeparator at h
  split at h
  · rw [Option.some.inj h]
  · cases h

/-! ## The parts of an entry -/

/-- The form of an entry's value, and the parts that it is read as. -/
structure Joins (s column code value : List Char) : Prop where
  text : s = column ++ '_' :: '_' :: (code ++ '_' :: '_' :: value)
  noSeparator : ¬ ['_', '_'] <:+: column
  noUnderscore : ¬ ['_'] <:+ column
  code_ne_nil : code ≠ []
  code_plain : '_' ∉ code

theorem parts?_of_joins (h : Joins s column code value) :
    parts? s = some (column, code, value) := by
  have hplain : ∀ c ∈ code, decide (c ≠ '_') = true := by
    intro c hc
    exact decide_eq_true fun hmark => h.code_plain (hmark ▸ hc)
  have hne : code.isEmpty = false := List.isEmpty_eq_false_iff.2 h.code_ne_nil
  unfold parts?
  rw [h.text, cutSeparator_append h.noSeparator h.noUnderscore]
  simp only [Option.bind_eq_bind, Option.bind_some]
  rw [List.takeWhile_append_of_pos hplain, List.dropWhile_append_of_pos hplain]
  simp [skipSeparator, hne]

theorem joins_of_parts? (h : parts? s = some (column, code, value)) :
    Joins s column code value := by
  unfold parts? at h
  simp only [Option.bind_eq_bind, Option.bind_eq_some_iff] at h
  obtain ⟨⟨before, rest⟩, hcut, h⟩ := h
  obtain ⟨htext, hinside, hend⟩ := cutSeparator_inv hcut
  have hrest := List.takeWhile_append_dropWhile (p := fun c => decide (c ≠ '_')) (l := rest)
  split at h
  · cases h
  · rename_i hcode
    obtain ⟨_, hskip, hparts⟩ := Option.bind_eq_some_iff.1 h
    cases hparts
    rw [skipSeparator_inv hskip] at hrest
    refine ⟨by rw [htext, hrest], hinside, hend, ?_, ?_⟩
    · exact fun hnil => hcode (List.isEmpty_iff.2 hnil)
    · intro hmark
      have hplain := List.all_eq_true.1 List.all_takeWhile _ hmark
      exact of_decide_eq_true hplain rfl

end Separator

/-! ## Options -/

variable {o : FilterOption} {raw code : String}

/-- The value of an entry that asks for an option, in a code of the option's operator. -/
structure Spells (raw code : String) (o : FilterOption) : Prop where
  separable : Separable o.column
  text : raw = o.column ++ "__" ++ code ++ "__" ++ o.value
  code_ne_empty : code ≠ ""
  code_plain : '_' ∉ code.toList
  decodes : Operator.ofCode code = .ok o.operator

theorem ofQueryValue?_of_spells (h : Spells raw code o) : ofQueryValue? raw = some o := by
  have hcolumn : o.column.toList.isEmpty = false := by
    rw [List.isEmpty_eq_false_iff]
    exact fun hnil => h.separable.nonempty (String.toList_eq_nil_iff.1 hnil)
  have hjoins : Joins raw.toList o.column.toList code.toList o.value.toList := by
    refine ⟨?_, h.separable.noSeparator, h.separable.noUnderscore, ?_, h.code_plain⟩
    · rw [h.text]
      simp only [String.toList_append, List.append_assoc]
      rfl
    · exact fun hnil => h.code_ne_empty (String.toList_eq_nil_iff.1 hnil)
  unfold ofQueryValue?
  rw [parts?_of_joins hjoins]
  simp only [Option.bind_eq_bind, Option.bind_some, hcolumn, String.ofList_toList, h.decodes]
  rfl

/-- What is read as an option spells it. -/
theorem exists_spells (h : ofQueryValue? raw = some o) : ∃ code, Spells raw code o := by
  unfold ofQueryValue? at h
  simp only [Option.bind_eq_bind, Option.bind_eq_some_iff] at h
  obtain ⟨⟨column, code, value⟩, hparts, h⟩ := h
  have hjoins := joins_of_parts? hparts
  split at h
  · cases h
  · rename_i hcolumn
    cases hop : Operator.ofCode (String.ofList code) with
    | error e => simp only [hop] at h; cases h
    | ok operator =>
      simp only [hop] at h
      cases h
      refine ⟨String.ofList code, ⟨?_, ?_, ?_⟩, ?_, ?_, ?_, hop⟩
      · exact fun hnil => hcolumn (List.isEmpty_iff.2 (String.ofList_eq_empty_iff.1 hnil))
      · rw [String.toList_ofList]
        exact hjoins.noSeparator
      · rw [String.toList_ofList]
        exact hjoins.noUnderscore
      · rw [← String.toList_inj, hjoins.text]
        simp only [String.toList_append, String.toList_ofList, List.append_assoc]
        rfl
      · exact fun hnil => hjoins.code_ne_nil (String.ofList_eq_empty_iff.1 hnil)
      · rw [String.toList_ofList]
        exact hjoins.code_plain

theorem spells_toQueryValue (h : Separable o.column) : Spells o.toQueryValue o.operator.code o where
  separable := h
  text := rfl
  code_ne_empty hnil := by
    have hne := o.operator.code_isEmpty
    rw [hnil] at hne
    cases hne
  code_plain := o.operator.not_mem_code
  decodes := o.operator.ofCode_code

theorem ofQueryValue?_toQueryValue (h : Separable o.column) :
    ofQueryValue? o.toQueryValue = some o := ofQueryValue?_of_spells (spells_toQueryValue h)

/-- **The format of filter entries is exact.** A text is read as an option if and only if it spells
the option: a separable column, a code of the option's operator that is not empty and holds no
underscore, and the filter text, with separators between them. An option is read back from what it
is written as if and only if its column is separable. So what has been read can be written and read
again. -/
theorem ofQueryValue?_exact (raw : String) (o : FilterOption) :
    (ofQueryValue? raw = some o ↔ ∃ code, Spells raw code o) ∧
    (ofQueryValue? o.toQueryValue = some o ↔ Separable o.column) ∧
    (ofQueryValue? raw = some o → ofQueryValue? o.toQueryValue = some o) := by
  refine ⟨⟨exists_spells, ?_⟩, ⟨?_, ofQueryValue?_toQueryValue⟩, ?_⟩
  · rintro ⟨code, hspells⟩
    exact ofQueryValue?_of_spells hspells
  · intro h
    obtain ⟨code, hspells⟩ := exists_spells h
    exact hspells.separable
  · intro h
    obtain ⟨code, hspells⟩ := exists_spells h
    exact ofQueryValue?_toQueryValue hspells.separable

/-- An underscore at the head of a column, blanks and a sign in a code, and a separator at the head
of a filter text are kept apart; an underscore at the end of a column is not. -/
theorem ofQueryValue?_exact_of_city :
    ofQueryValue? "_City__ +3 ____=_" = some ⟨"_City", .startsWith, "__=_"⟩ ∧
      Spells "_City__ +3 ____=_" " +3 " ⟨"_City", .startsWith, "__=_"⟩ ∧
      ofQueryValue? "_City__3____=_" = some ⟨"_City", .startsWith, "__=_"⟩ ∧
      ofQueryValue? "City___3__x" ≠ some ⟨"City_", .startsWith, "x"⟩ := by
  have hspells : Spells "_City__ +3 ____=_" " +3 " ⟨"_City", .startsWith, "__=_"⟩ :=
    ⟨⟨by decide, by decide, by decide⟩, by decide, by decide, by decide, rfl⟩
  obtain ⟨hread, -, hagain⟩ :=
    ofQueryValue?_exact "_City__ +3 ____=_" ⟨"_City", .startsWith, "__=_"⟩
  obtain ⟨-, hback, -⟩ := ofQueryValue?_exact "" ⟨"City_", .startsWith, "x"⟩
  have hparsed := hread.2 ⟨_, hspells⟩
  refine ⟨hparsed, hspells, hagain hparsed, fun h => ?_⟩
  exact (hback.1 h).noUnderscore (by decide)

end DataGrid.FilterOption
