import DataGrid.Proofs.FilterEntries
import DataGrid.Proofs.PercentText

/-!
# Query strings carry whole requests

The filter options and the names of a request, written as the entries of a query string, are
read back from it. Each entry passes three layers: the marks between the entries, the percent
encoding of its value, and the separators inside the value of a filter entry. Filter texts may
hold any of these marks; column names must not hold the separator.
-/

namespace DataGrid

open Text

namespace Settings

theorem decode_percentEncode (s : String) : decode (percentEncode s) = s := by
  have hplus : ∀ c ∈ percentEncode s, (if c = '+' then ' ' else c) = id c := by
    intro c hc
    have hmark := not_mark_of_mem_percentEncode hc
    exact if_neg fun h => hmark (by rw [h]; decide)
  unfold decode
  simp only [List.map_congr_left hplus, List.map_id, decoded?_percentEncode, Option.getD_some]

/-- An entry of a query string. -/
def entryText (key value : String) : List Char := key.toList ++ '=' :: percentEncode value

/-- The texts of filter options and of names to clear, each list in its own order. -/
inductive Interleaved : List FilterOption → List String → List (List Char) → Prop where
  | nil : Interleaved [] [] []
  | option (o : FilterOption) {options names texts} (h : Interleaved options names texts) :
    Interleaved (o :: options) names (entryText filterKey o.toQueryValue :: texts)
  | name (name : String) {options names texts} (h : Interleaved options names texts) :
    Interleaved options (name :: names) (entryText clearKey name :: texts)

/-- Keys that percent encoding leaves as they are. -/
def IsKey (key : String) : Prop := percentEncode key = key.toList

theorem isKey_filterKey : IsKey filterKey := by
  unfold IsKey percentEncode encodedBytes
  rw [toList_eq_data_toList]
  rfl

theorem isKey_clearKey : IsKey clearKey := by
  unfold IsKey percentEncode encodedBytes
  rw [toList_eq_data_toList]
  rfl

theorem Interleaved.exists_entryText {options : List FilterOption} {names : List String}
    {texts : List (List Char)} (h : Interleaved options names texts) :
    ∀ text ∈ texts, ∃ key value, IsKey key ∧ text = entryText key value := by
  induction h with
  | nil => exact fun _ h => nomatch h
  | option o _ ih => exact List.forall_mem_cons.2 ⟨⟨_, _, isKey_filterKey, rfl⟩, ih⟩
  | name name _ ih => exact List.forall_mem_cons.2 ⟨⟨_, _, isKey_clearKey, rfl⟩, ih⟩

theorem of_mem_entryText {key value : String} (hkey : IsKey key) {c : Char}
    (h : c ∈ entryText key value) : isBlank c = false ∧ c ≠ '&' ∧ c ≠ '?' := by
  have hencoded : ∀ s, c ∈ percentEncode s → isBlank c = false ∧ c ≠ '&' ∧ c ≠ '?' := by
    intro s hc
    have hmark := not_mark_of_mem_percentEncode hc
    refine ⟨not_blank_of_mem_percentEncode hc, ?_, ?_⟩
    · rintro rfl
      exact hmark (by decide)
    · rintro rfl
      exact hmark (by decide)
  unfold entryText at h
  rw [List.mem_append, List.mem_cons] at h
  obtain h | rfl | h := h
  · exact hencoded key (hkey ▸ h)
  · decide
  · exact hencoded value h

/-- The key and the value of an entry. -/
def readEntry (text : List Char) : String × String :=
  match cutAt '=' text with
  | some (key, value) => (decode key, decode value)
  | none => (decode text, "")

theorem readEntry_entryText {key : String} (hkey : IsKey key) (value : String) :
    readEntry (entryText key value) = (key, value) := by
  have hmark : '=' ∉ key.toList := by
    rw [← hkey]
    intro h
    exact not_mark_of_mem_percentEncode h (by decide)
  unfold readEntry entryText
  rw [cutAt_append hmark, ← hkey]
  simp only [decode_percentEncode]

theorem addEntry_empty (s : Settings) (key : String) : s.addEntry (key, "") = s := by
  unfold addEntry
  by_cases hfilter : key = filterKey
  · simp only [hfilter, if_true]
    rfl
  · simp only [hfilter, if_false, ne_eq, not_true_eq_false, and_false]

/-- The entries of a query string are read one by one, from the first to the last. -/
theorem ofQuery_joined {texts : List (List Char)}
    (h : ∀ text ∈ texts, ∃ key value, IsKey key ∧ text = entryText key value) :
    ofQuery (String.ofList (joined '&' texts)) = (texts.map readEntry).foldl addEntry {} := by
  have hchars : ∀ c ∈ joined '&' texts, isBlank c = false ∧ c ≠ '?' := by
    intro c hc
    obtain rfl | ⟨text, htext, hc⟩ := of_mem_joined hc
    · decide
    · obtain ⟨key, value, hkey, rfl⟩ := h text htext
      obtain ⟨hblank, -, hmark⟩ := of_mem_entryText hkey hc
      exact ⟨hblank, hmark⟩
  have hpieces : ∀ text ∈ texts, '&' ∉ text := by
    intro text htext hc
    obtain ⟨key, value, hkey, rfl⟩ := h text htext
    exact (of_mem_entryText hkey hc).2.1 rfl
  unfold ofQuery entries
  rw [String.toList_ofList, trim_eq_self fun c hc => (hchars c hc).1,
    dropWhile_eq_self fun c hc => decide_eq_false (hchars c hc).2]
  change ((pieces '&' (joined '&' texts)).map readEntry).foldl addEntry {} = _
  cases texts with
  | nil => exact addEntry_empty {} _
  | cons text texts => rw [pieces_joined (List.cons_ne_nil _ _) hpieces]

theorem addEntry_option {o : FilterOption} (h : FilterOption.Separable o.column)
    (s : Settings) : s.addEntry (filterKey, o.toQueryValue) = s.push o := by
  unfold addEntry
  simp only [if_true, FilterOption.ofQueryValue?_toQueryValue h]

theorem addEntry_clear {name : String} (h : name ≠ "") (s : Settings) :
    s.addEntry (clearKey, name) = s.clear name := by
  have hkeys : clearKey ≠ filterKey := by decide
  unfold addEntry
  simp only [if_neg hkeys, h, ne_eq, not_false_eq_true, and_self, if_true]

theorem mem_clear {s : Settings} {name column : String} :
    name ∈ (s.clear column).cleared ↔ name ∈ s.cleared ∨ name = column := by
  unfold clear
  split
  · rename_i h
    constructor
    · exact .inl
    · rintro (h' | rfl)
      · exact h'
      · exact h
  · simp

/-- Reading interleaved entries adds their options in order, and their names. -/
theorem Interleaved.foldl_addEntry {options : List FilterOption} {names : List String}
    {texts : List (List Char)} (h : Interleaved options names texts)
    (hoptions : ∀ o ∈ options, FilterOption.Separable o.column) (hnames : ∀ name ∈ names, name ≠ "")
    (s : Settings) :
    ((texts.map readEntry).foldl addEntry s).options = s.options ++ options ∧
      ∀ name, name ∈ ((texts.map readEntry).foldl addEntry s).cleared ↔
        name ∈ s.cleared ∨ name ∈ names := by
  induction h generalizing s with
  | nil => simp
  | option o _ ih =>
    rw [List.forall_mem_cons] at hoptions
    obtain ⟨hadded, hcleared⟩ := ih hoptions.2 hnames (s.push o)
    rw [List.map_cons, List.foldl_cons, readEntry_entryText isKey_filterKey,
      addEntry_option hoptions.1]
    refine ⟨hadded.trans ?_, hcleared⟩
    exact List.append_assoc s.options [o] _
  | name column _ ih =>
    rw [List.forall_mem_cons] at hnames
    obtain ⟨hadded, hcleared⟩ := ih hoptions hnames.2 (s.clear column)
    have hkept : (s.clear column).options = s.options := by
      unfold clear
      split <;> rfl
    rw [List.map_cons, List.foldl_cons, readEntry_entryText isKey_clearKey,
      addEntry_clear hnames.1]
    refine ⟨hkept ▸ hadded, fun name => ?_⟩
    rw [hcleared, mem_clear, List.mem_cons, or_assoc]

/-- **Query strings carry whole requests.** The settings read from the entries of filter options
and names to clear, in any order that keeps that of each list, have the options of every column
in their order, and clear just these names. -/
theorem ofQuery_interleaved {options : List FilterOption} {names : List String}
    {texts : List (List Char)} (h : Interleaved options names texts)
    (hoptions : ∀ o ∈ options, FilterOption.Separable o.column)
    (hnames : ∀ name ∈ names, name ≠ "") :
    (∀ column, (ofQuery (String.ofList (joined '&' texts))).optionsFor column =
      options.filter (·.column = column)) ∧
    ∀ name, name ∈ (ofQuery (String.ofList (joined '&' texts))).cleared ↔ name ∈ names := by
  obtain ⟨hadded, hcleared⟩ := h.foldl_addEntry hoptions hnames {}
  rw [ofQuery_joined h.exists_entryText]
  constructor
  · intro column
    unfold optionsFor
    rw [hadded, List.nil_append]
  · intro name
    rw [hcleared]
    simp

/-- Two options of one column around one of another, with marks of all layers in their texts. -/
def searched : List FilterOption :=
  [⟨"_City", .contains, " 50%+__&é?"⟩, ⟨"Net", .none, ""⟩, ⟨"_City", .startsWith, "__=_"⟩]

def searchTexts : List (List Char) :=
  [entryText filterKey searched[0].toQueryValue, entryText filterKey searched[1].toQueryValue,
    entryText clearKey "Ship To", entryText filterKey searched[2].toQueryValue]

def searchQuery : String :=
  "grid-filter=_City__2__%2050%25%2B__%26%C3%A9%3F&grid-filter=Net__0__" ++
    "&grid-clearinitfilter=Ship%20To&grid-filter=_City__3____%3D_"

theorem ofQuery_interleaved_searched :
    Interleaved searched ["Ship To"] searchTexts ∧
    (∀ o ∈ searched, FilterOption.Separable o.column) ∧ (∀ name ∈ ["Ship To"], name ≠ "") ∧
    String.ofList (joined '&' searchTexts) = searchQuery ∧
    (ofQuery searchQuery).optionsFor "_City" =
      [⟨"_City", .contains, " 50%+__&é?"⟩, ⟨"_City", .startsWith, "__=_"⟩] ∧
    "Ship To" ∈ (ofQuery searchQuery).cleared := by
  have hall : Interleaved searched ["Ship To"] searchTexts :=
    .option _ (.option _ (.name _ (.option _ .nil)))
  have hoptions : ∀ o ∈ searched, FilterOption.Separable o.column := by
    have hcity : FilterOption.Separable "_City" := ⟨by decide, by decide, by decide⟩
    have hnet : FilterOption.Separable "Net" := ⟨by decide, by decide, by decide⟩
    unfold searched
    simp only [List.forall_mem_cons]
    exact ⟨hcity, hnet, hcity, fun _ h => nomatch h⟩
  have hnames : ∀ name ∈ ["Ship To"], name ≠ "" := by decide
  have htext : String.ofList (joined '&' searchTexts) = searchQuery := by
    unfold searchTexts entryText percentEncode encodedBytes
    simp only [toList_eq_data_toList]
    decide +kernel
  obtain ⟨hread, hcleared⟩ := ofQuery_interleaved hall hoptions hnames
  rw [htext] at hread hcleared
  exact ⟨hall, hoptions, hnames, htext, (hread "_City").trans rfl, (hcleared _).2 (by decide)⟩

end Settings

end DataGrid
