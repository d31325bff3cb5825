import DataGrid.Proofs.QueryRoundTrip

/-!
# The entries of a query string

Every entry of a query string is read by itself: it asks for a filter option, or it clears an
initial filter, or it is idle. The settings of a query are what its entries ask for, one after
the other. So two queries with a separator between them give the options of both, an idle entry
changes nothing wherever it stands, and neighbours that name different columns may change
places.
-/

namespace DataGrid

open Text

namespace Settings

/-- The texts of the entries of a query string. -/
def entryTexts (query : String) : List (List Char) :=
  pieces '&' ((trim query.toList).dropWhile (· = '?'))

/-- The filter option that an entry asks for. -/
def optionOf? (entry : List Char) : Option FilterOption :=
  if (readEntry entry).1 = filterKey then FilterOption.ofQueryValue? (readEntry entry).2 else none

/-- The column whose initial filter an entry clears. -/
def clearedBy? (entry : List Char) : Option String :=
  if (readEntry entry).1 = clearKey ∧ (readEntry entry).2 ≠ "" then some (readEntry entry).2
  else none

/-- Entries of an unknown key, filter entries with a malformed value or an unknown code, and
entries that clear no column. -/
def Idle (entry : List Char) : Prop :=
  ((readEntry entry).1 = filterKey → FilterOption.ofQueryValue? (readEntry entry).2 = none) ∧
    ((readEntry entry).1 = clearKey → (readEntry entry).2 = "")

/-- Whether an entry asks for an option of a column or clears its initial filter. -/
def Names (entry : List Char) (column : String) : Prop :=
  (∃ o, optionOf? entry = some o ∧ o.column = column) ∨ clearedBy? entry = some column

theorem optionOf?_of_idle {entry : List Char} (h : Idle entry) : optionOf? entry = none := by
  unfold optionOf?
  by_cases hkey : (readEntry entry).1 = filterKey
  · rw [if_pos hkey, h.1 hkey]
  · rw [if_neg hkey]

theorem clearedBy?_of_idle {entry : List Char} (h : Idle entry) : clearedBy? entry = none := by
  have hvalue : ¬ ((readEntry entry).1 = clearKey ∧ (readEntry entry).2 ≠ "") := by
    intro ⟨hkey, hne⟩
    exact hne (h.2 hkey)
  exact if_neg hvalue

/-! ## What entries add -/

theorem addEntry_eq (s : Settings) (entry : String × String) :
    s.addEntry entry =
      if entry.1 = filterKey then (FilterOption.ofQueryValue? entry.2).elim s s.push
      else if entry.1 = clearKey ∧ entry.2 ≠ "" then s.clear entry.2
      else s := by
  obtain ⟨key, value⟩ := entry
  unfold addEntry
  dsimp only
  cases FilterOption.ofQueryValue? value <;> rfl

/-- An entry pushes an option, clears a name or does nothing. -/
theorem addEntry_cases (s : Settings) (entry : List Char) :
    (∃ o, optionOf? entry = some o ∧ clearedBy? entry = none ∧
      s.addEntry (readEntry entry) = s.push o) ∨
    (∃ name, optionOf? entry = none ∧ clearedBy? entry = some name ∧
      s.addEntry (readEntry entry) = s.clear name) ∨
    (optionOf? entry = none ∧ clearedBy? entry = none ∧ s.addEntry (readEntry entry) = s) := by
  have hkeys : filterKey ≠ clearKey := by decide
  by_cases hfilter : (readEntry entry).1 = filterKey
  · have hname : clearedBy? entry = none := if_neg fun h => hkeys (hfilter.symm.trans h.1)
    have hoption : optionOf? entry = FilterOption.ofQueryValue? (readEntry entry).2 :=
      if_pos hfilter
    have hadd := (s.addEntry_eq (readEntry entry)).trans (if_pos hfilter)
    cases hvalue : FilterOption.ofQueryValue? (readEntry entry).2 with
    | none =>
      rw [hvalue] at hoption hadd
      exact .inr (.inr ⟨hoption, hname, hadd⟩)
    | some o =>
      rw [hvalue] at hoption hadd
      exact .inl ⟨o, hoption, hname, hadd⟩
  · have hoption : optionOf? entry = none := if_neg hfilter
    have hadd := (s.addEntry_eq (readEntry entry)).trans (if_neg hfilter)
    by_cases hclear : (readEntry entry).1 = clearKey ∧ (readEntry entry).2 ≠ ""
    · rw [if_pos hclear] at hadd
      exact .inr (.inl ⟨_, hoption, if_pos hclear, hadd⟩)
    · rw [if_neg hclear] at hadd
      exact .inr (.inr ⟨hoption, if_neg hclear, hadd⟩)

theorem options_clear (s : Settings) (name : String) : (s.clear name).options = s.options := by
  unfold clear
  split <;> rfl

theorem options_addEntry (s : Settings) (entry : List Char) :
    (s.addEntry (readEntry entry)).options = s.options ++ (optionOf? entry).toList := by
  rcases s.addEntry_cases entry with ⟨o, hoption, -, hadd⟩ | ⟨name, hoption, -, hadd⟩ |
    ⟨hoption, -, hadd⟩
  · rw [hadd, hoption]
    rfl
  · rw [hadd, hoption, options_clear]
    exact (List.append_nil _).symm
  · rw [hadd, hoption]
    exact (List.append_nil _).symm

theorem mem_cleared_addEntry {s : Settings} {entry : List Char} {name : String} :
    name ∈ (s.addEntry (readEntry entry)).cleared ↔
      name ∈ s.cleared ∨ clearedBy? entry = some name := by
  rcases s.addEntry_cases entry with ⟨o, -, hname, hadd⟩ | ⟨column, -, hname, hadd⟩ |
    ⟨-, hname, hadd⟩
  · rw [hadd, hname]
    simp [push]
  · rw [hadd, hname, mem_clear, Option.some_inj, eq_comm]
  · rw [hadd, hname]
    simp

/-- Entries add their options in order, and the columns that they clear. -/
theorem foldl_addEntry (entries : List (List Char)) (s : Settings) :
    ((entries.map readEntry).foldl addEntry s).options =
        s.options ++ entries.filterMap optionOf? ∧
      ∀ name, name ∈ ((entries.map readEntry).foldl addEntry s).cleared ↔
        name ∈ s.cleared ∨ name ∈ entries.filterMap clearedBy? := by
  induction entries generalizing s with
  | nil => simp
  | cons entry entries ih =>
    obtain ⟨hoptions, hcleared⟩ := ih (s.addEntry (readEntry entry))
    rw [List.map_cons, List.foldl_cons]
    constructor
    · rw [hoptions, options_addEntry, List.append_assoc, List.filterMap_cons]
      cases optionOf? entry <;> rfl
    · intro name
      rw [hcleared, mem_cleared_addEntry, or_assoc, List.filterMap_cons]
      cases clearedBy? entry <;> simp [eq_comm]

theorem ofQuery_eq (query : String) :
    ofQuery query = ((entryTexts query).map readEntry).foldl addEntry {} := rfl

theorem options_ofQuery (query : String) :
    (ofQuery query).options = (entryTexts query).filterMap optionOf? := by
  rw [ofQuery_eq, (foldl_addEntry _ _).1]
  rfl

theorem mem_cleared_ofQuery {query name : String} :
    name ∈ (ofQuery query).cleared ↔
      name ∈ (entryTexts query).filterMap clearedBy? := by
  rw [ofQuery_eq, (foldl_addEntry _ _).2]
  exact or_iff_right List.not_mem_nil

theorem optionsFor_ofQuery (query column : String) :
    (ofQuery query).optionsFor column =
      (entryTexts query).filterMap fun entry => (optionOf? entry).filter (·.column = column) := by
  unfold optionsFor
  rw [options_ofQuery, List.filter_filterMap]

/-! ## Joined queries -/

theorem entryTexts_of_trimmed {a : String} (h : trimmed a = a) :
    trimStart a.toList = a.toList ∧ trimEnd a.toList = a.toList ∧
      entryTexts a = pieces '&' (a.toList.dropWhile (· = '?')) := by
  have htrim : trim a.toList = a.toList := by
    have hlist := congrArg String.toList h
    unfold trimmed at hlist
    rwa [String.toList_ofList] at hlist
  obtain ⟨hstart, hend⟩ := trimStart_trimEnd_of_trim htrim
  refine ⟨hstart, hend, ?_⟩
  unfold entryTexts
  rw [htrim]

/-- The entries of two queries with a separator between them. -/
theorem entryTexts_append {a b : String} (ha : trimmed a = a) (hb : trimmed b = b)
    (hmark : b.toList.head? ≠ some '?') :
    entryTexts (a ++ "&" ++ b) = entryTexts a ++ entryTexts b := by
  obtain ⟨hstart, -, hfirst⟩ := entryTexts_of_trimmed ha
  obtain ⟨-, hend, hsecond⟩ := entryTexts_of_trimmed hb
  have hlist : (a ++ "&" ++ b).toList = a.toList ++ '&' :: b.toList := by
    rw [String.toList_append, String.toList_append, List.append_assoc]
    rfl
  have hkept : b.toList.dropWhile (· = '?') = b.toList := by
    cases hchars : b.toList with
    | nil => rfl
    | cons c rest =>
      have hc : c ≠ '?' := by
        intro h
        exact hmark (by rw [hchars, h]; rfl)
      rw [List.dropWhile_cons, if_neg (by simpa using hc)]
  rw [hfirst, hsecond, hkept]
  unfold entryTexts
  rw [hlist, trim_append_cons (by decide), hstart, hend, dropWhile_append_cons (by decide),
    pieces_append_separator]

/-! ## Settings that say the same -/

/-- Settings that say the same about every column. -/
structure Agree (s t : Settings) : Prop where
  options : ∀ column, s.optionsFor column = t.optionsFor column
  cleared : ∀ name, name ∈ s.cleared ↔ name ∈ t.cleared
  initial : ∀ c : ColumnState, s.isInitial c = t.isInitial c

theorem any_column (s : Settings) (column : String) :
    s.options.any (·.column = column) = !(s.optionsFor column).isEmpty := by
  unfold optionsFor
  induction s.options with
  | nil => rfl
  | cons o os ih =>
    rw [List.any_cons, List.filter_cons, ih]
    by_cases ho : o.column = column <;> simp [ho]

/-- Whether a column is in its initial state hangs on its options and on the cleared names. -/
theorem Agree.of_options_of_cleared {s t : Settings}
    (hoptions : ∀ column, s.optionsFor column = t.optionsFor column)
    (hcleared : ∀ name, name ∈ s.cleared ↔ name ∈ t.cleared) : Agree s t := by
  refine ⟨hoptions, hcleared, fun c => ?_⟩
  have hcontains : s.cleared.contains c.name = t.cleared.contains c.name := by
    rw [Bool.eq_iff_iff, List.contains_iff_mem, List.contains_iff_mem, hcleared]
  unfold isInitial
  rw [any_column, any_column, hoptions, hcontains]

section Neighbours

variable {q q' : String} {before after : List (List Char)}

theorem options_of_idle {entry : List Char} (hidle : Idle entry)
    (hq : entryTexts q = before ++ entry :: after) (hq' : entryTexts q' = before ++ after) :
    (ofQuery q).options = (ofQuery q').options := by
  rw [options_ofQuery, options_ofQuery, hq, hq', List.filterMap_append, List.filterMap_append,
    List.filterMap_cons_none (optionOf?_of_idle hidle)]

theorem agree_of_idle {entry : List Char} (hidle : Idle entry)
    (hq : entryTexts q = before ++ entry :: after) (hq' : entryTexts q' = before ++ after) :
    Agree (ofQuery q) (ofQuery q') := by
  apply Agree.of_options_of_cleared
  · intro column
    unfold optionsFor
    rw [options_of_idle hidle hq hq']
  · intro name
    rw [mem_cleared_ofQuery, mem_cleared_ofQuery, hq, hq', List.filterMap_append,
      List.filterMap_append, List.filterMap_cons_none (clearedBy?_of_idle hidle)]

/-- Of two entries that name no common column at most one has an option of a given column. -/
theorem agree_of_swap {x y : List Char} (hapart : ∀ column, ¬ (Names x column ∧ Names y column))
    (hq : entryTexts q = before ++ x :: y :: after)
    (hq' : entryTexts q' = before ++ y :: x :: after) : Agree (ofQuery q) (ofQuery q') := by
  apply Agree.of_options_of_cleared
  · intro column
    have hnames : ∀ {entry o}, (optionOf? entry).filter (·.column = column) = some o →
        Names entry column := by
      intro entry o ho
      obtain ⟨hentry, hcolumn⟩ := Option.filter_eq_some_iff.1 ho
      exact .inl ⟨o, hentry, of_decide_eq_true hcolumn⟩
    rw [optionsFor_ofQuery, optionsFor_ofQuery, hq, hq', List.filterMap_append,
      List.filterMap_append]
    congr 1
    cases hx : (optionOf? x).filter (·.column = column) with
    | none => simp only [List.filterMap_cons, hx]
    | some o =>
      cases hy : (optionOf? y).filter (·.column = column) with
      | none => simp only [List.filterMap_cons, hx, hy]
      | some o' => exact absurd ⟨hnames hx, hnames hy⟩ (hapart column)
  · intro name
    have hperm : (before ++ x :: y :: after).Perm (before ++ y :: x :: after) :=
      (List.Perm.swap y x after).append_left before
    rw [mem_cleared_ofQuery, mem_cleared_ofQuery, hq, hq']
    exact (hperm.filterMap clearedBy?).mem_iff

end Neighbours

/-- **Query entries are independent of each other.** A query of two parts gives each column the
options of the first part and then those of the second, and clears the names of both. Taking out
an idle entry changes nothing, and neither does swapping two neighbours that name no common
column. -/
theorem entries_independent :
    (∀ a b : String, trimmed a = a → trimmed b = b → b.toList.head? ≠ some '?' →
      (∀ column, (ofQuery (a ++ "&" ++ b)).optionsFor column =
        (ofQuery a).optionsFor column ++ (ofQuery b).optionsFor column) ∧
      ∀ name, name ∈ (ofQuery (a ++ "&" ++ b)).cleared ↔
        name ∈ (ofQuery a).cleared ∨ name ∈ (ofQuery b).cleared) ∧
    (∀ (q q' : String) (before after : List (List Char)) (entry : List Char), Idle entry →
      entryTexts q = before ++ entry :: after → entryTexts q' = before ++ after →
      (ofQuery q).options = (ofQuery q').options ∧ Agree (ofQuery q) (ofQuery q')) ∧
    ∀ (q q' : String) (before after : List (List Char)) (x y : List Char),
      (∀ column, ¬ (Names x column ∧ Names y column)) →
      entryTexts q = before ++ x :: y :: after → entryTexts q' = before ++ y :: x :: after →
      Agree (ofQuery q) (ofQuery q') := by
  refine ⟨?_, ?_, ?_⟩
  · intro a b ha hb hmark
    have hentries := entryTexts_append ha hb hmark
    constructor
    · intro column
      rw [optionsFor_ofQuery, optionsFor_ofQuery, optionsFor_ofQuery, hentries,
        List.filterMap_append]
    · intro name
      rw [mem_cleared_ofQuery, mem_cleared_ofQuery, mem_cleared_ofQuery, hentries,
        List.filterMap_append, List.mem_append]
  · intro q q' before after entry hidle hq hq'
    exact ⟨options_of_idle hidle hq hq', agree_of_idle hidle hq hq'⟩
  · intro q q' before after x y hapart hq hq'
    exact agree_of_swap hapart hq hq'

/-- A text search, an empty entry and an unknown code. -/
def cityQuery : String := "?grid-filter=City__2__Oslo&&grid-filter=City__99__x"

/-- An unknown key, bytes that are no text, and a name to clear. -/
def netQuery : String := "other&grid-filter=City__1__%C3&grid-clearinitfilter=Net"

theorem entries_independent_of_cities :
    trimmed cityQuery = cityQuery ∧ trimmed netQuery = netQuery ∧
      netQuery.toList.head? ≠ some '?' ∧
      (ofQuery (cityQuery ++ "&" ++ netQuery)).optionsFor "City" =
        [⟨"City", .contains, "Oslo"⟩, ⟨"City", .equals, "%C3"⟩] ∧
      "Net" ∈ (ofQuery (cityQuery ++ "&" ++ netQuery)).cleared ∧
      Idle "grid-filter=City__99__x".toList ∧
      Agree (ofQuery "a=b&grid-filter=City__99__x&Net") (ofQuery "a=b&Net") ∧
      Agree (ofQuery "grid-clearinitfilter=Net&grid-filter=City__1__Net")
        (ofQuery "grid-filter=City__1__Net&grid-clearinitfilter=Net") := by
  obtain ⟨happend, hidle, hswap⟩ := entries_independent
  have hcity : trimmed cityQuery = cityQuery := by decide +kernel
  have hnet : trimmed netQuery = netQuery := by decide +kernel
  have hmark : netQuery.toList.head? ≠ some '?' := by decide +kernel
  obtain ⟨hoptions, hcleared⟩ := happend cityQuery netQuery hcity hnet hmark
  have hfirst : (ofQuery cityQuery).optionsFor "City" = [⟨"City", .contains, "Oslo"⟩] := by
    unfold ofQuery entries decode decoded?
    simp only [toList_eq_data_toList]
    decide +kernel
  have hsecond : (ofQuery netQuery).optionsFor "City" = [⟨"City", .equals, "%C3"⟩] ∧
      "Net" ∈ (ofQuery netQuery).cleared := by
    unfold ofQuery entries decode decoded?
    simp only [toList_eq_data_toList]
    decide +kernel
  have hcode : Idle "grid-filter=City__99__x".toList := by
    unfold Idle readEntry decode decoded?
    simp only [toList_eq_data_toList]
    decide +kernel
  have hread : optionOf? "grid-clearinitfilter=Net".toList = none ∧
      clearedBy? "grid-clearinitfilter=Net".toList = some "Net" ∧
      optionOf? "grid-filter=City__1__Net".toList = some ⟨"City", .equals, "Net"⟩ ∧
      clearedBy? "grid-filter=City__1__Net".toList = none := by
    unfold optionOf? clearedBy? readEntry decode decoded?
    simp only [toList_eq_data_toList]
    decide +kernel
  have hapart : ∀ column, ¬ (Names "grid-clearinitfilter=Net".toList column ∧
      Names "grid-filter=City__1__Net".toList column) := by
    obtain ⟨hnoOption, hname, hoption, hnoName⟩ := hread
    intro column ⟨hx, hy⟩
    unfold Names at hx hy
    rw [hnoOption, hname] at hx
    rw [hoption, hnoName] at hy
    simp only [reduceCtorEq, false_and, exists_false, false_or, Option.some_inj] at hx
    simp only [reduceCtorEq, or_false, Option.some_inj, exists_eq_left', ← hx] at hy
    exact absurd hy (by decide)
  refine ⟨hcity, hnet, hmark, ?_, (hcleared "Net").2 (.inr hsecond.2), hcode, ?_, ?_⟩
  · rw [hoptions, hfirst, hsecond.1]
    rfl
  · exact (hidle _ _ ["a=b".toList] ["Net".toList] _ hcode (by decide +kernel) (by decide +kernel)).2
  · exact hswap _ _ [] [] _ _ hapart (by decide +kernel) (by decide +kernel)

end Settings

end DataGrid
