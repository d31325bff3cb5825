import DataGrid.Filter.Strategy
import DataGrid.Proofs.ReadValues

/-!
# Filters on free text

A filter for equal texts compares its text with the reading of the stored value, and a reading
shows numbers and truth values as texts. The filters that match a pattern look at stored texts
only. So the text that a stored text equals stands in it in every way a match may ask for, while a
stored number equals the text of its digits and is matched by no pattern.
-/

namespace DataGrid

/-! ## Matches -/

namespace TextMatch

theorem isInfix_iff {needle hay : List Char} : isInfix needle hay = true ↔ needle <:+: hay := by
  induction hay with
  | nil =>
    unfold isInfix
    rw [List.isEmpty_iff]
    exact ⟨fun h => h ▸ List.infix_rfl, List.eq_nil_of_infix_nil⟩
  | cons c hay ih =>
    unfold isInfix
    rw [Bool.or_eq_true, List.isPrefixOf_iff_prefix, ih, List.infix_cons_iff]

/-- Where a match asks for a pattern to stand in a text. -/
def Stands : TextMatch → List Char → List Char → Prop
  | contains => (· <:+: ·)
  | startsWith => (· <+: ·)
  | endsWith => (· <:+ ·)

theorem holds_iff (m : TextMatch) (hay needle : String) :
    m.holds hay needle = true ↔ m.Stands needle.toList hay.toList := by
  cases m with
  | contains => exact isInfix_iff
  | startsWith => exact List.isPrefixOf_iff_prefix
  | endsWith => exact List.isSuffixOf_iff_suffix

/-- A text stands in itself. -/
theorem holds_self (m : TextMatch) (t : String) : m.holds t t = true := by
  rw [holds_iff]
  cases m with
  | contains => exact List.infix_rfl
  | startsWith => exact List.prefix_rfl
  | endsWith => exact List.suffix_rfl

end TextMatch

/-- The operator that asks for a match. -/
def TextMatch.operator : TextMatch → Operator
  | contains => .contains
  | startsWith => .startsWith
  | endsWith => .endsWith

theorem Operator.equals_mem_textual : equals ∈ textual := by decide

theorem TextMatch.operator_mem_textual (m : TextMatch) : m.operator ∈ Operator.textual := by
  cases m <;> decide

/-! ## Predicates -/

namespace Strategy

/-- The strategy of free text. -/
def textual : Strategy := ⟨.text, Operator.textual⟩

theorem strategy?_text : Kind.text.strategy? = some textual := rfl

variable {column : ColumnState} {path : Path}

theorem apply_textual (hpath : column.expression.bind Path.parse? = some path) (ctx : Context)
    {o : FilterOption} (hlegal : o.operator ∈ Operator.textual) :
    textual.apply ctx column o =
      (textual.predicateOn ctx path o.operator (some (.text o.value))).map some := by
  have hvalid : textual.validOperator o.operator = o.operator := if_pos hlegal
  have hread : textual.kind.read? o.value = some (.text o.value) := rfl
  unfold apply
  rw [hvalid, hread]
  exact build_eq hlegal hpath (.inl rfl) ctx

theorem apply_equals (hpath : column.expression.bind Path.parse? = some path) (ctx : Context)
    (name t : String) : textual.apply ctx column ⟨name, .equals, t⟩ =
      .ok (some (.compare path .text .equal (.text t))) :=
  apply_textual hpath ctx Operator.equals_mem_textual

theorem apply_match (hpath : column.expression.bind Path.parse? = some path) (ctx : Context)
    (name t : String) (m : TextMatch) : textual.apply ctx column ⟨name, m.operator, t⟩ =
      .ok (some (.matches path m t)) := by
  rw [apply_textual hpath ctx m.operator_mem_textual]
  cases m <;> rfl

end Strategy

/-! ## Rows -/

/-- A stored value reads as nothing or as a text. -/
theorem Record.read_text (row : Record) (path : Path) :
    row.read path .text = .null ∨ ∃ s, row.read path .text = .text s := by
  rcases row.read_domain path .text with hnull | hdomain
  · exact .inl hnull
  · cases hread : row.read path .text with
    | text s => exact .inr ⟨s, rfl⟩
    | float x => rw [hread] at hdomain; cases x <;> cases hdomain
    | _ => rw [hread] at hdomain; cases hdomain

namespace Store

variable (store : Store) {path : Path} {row : Record} {t : String}

theorem holds_equals_iff : store.holds (.compare path .text .equal (.text t)) row = .ok true ↔
    row.read path .text = .text t := by
  unfold holds
  rw [Except.ok.injEq]
  rcases row.read_text path with hnull | ⟨s, hs⟩
  · rw [hnull]
    exact ⟨fun h => (by cases h), fun h => (by cases h)⟩
  · rw [hs, Value.text.injEq]
    show (Ord.compare s t == .eq) = true ↔ s = t
    rw [beq_iff_eq, Std.compare_eq_iff_eq]

theorem holds_match_iff {m : TextMatch} : store.holds (.matches path m t) row = .ok true ↔
    ∃ s, row.lookup? path.segments = some (.string s) ∧ m.holds s t = true := by
  unfold holds
  split
  · rename_i s hs
    rw [hs, Except.ok.injEq]
    constructor
    · exact fun h => ⟨s, rfl, h⟩
    · rintro ⟨s', hs', h⟩
      cases hs'
      exact h
  · rename_i hs
    constructor
    · intro h
      cases h
    · rintro ⟨s, hs', -⟩
      exact absurd hs' (hs s)

/-- Whether the predicate that a column's strategy builds for an operator and a text keeps a
row. -/
def Passes (ctx : Context) (column : ColumnState) (o : Operator) (t : String) (row : Record) :
    Prop :=
  ∃ s p, column.kind.strategy? = some s ∧ s.apply ctx column ⟨column.name, o, t⟩ = .ok (some p) ∧
    store.holds p row = .ok true

variable {ctx : Context} {column : ColumnState}

theorem passes_iff {s : Strategy} {p : Predicate} {o : Operator}
    (hs : column.kind.strategy? = some s)
    (hp : s.apply ctx column ⟨column.name, o, t⟩ = .ok (some p)) :
    store.Passes ctx column o t row ↔ store.holds p row = .ok true := by
  constructor
  · rintro ⟨s', p', hs', hp', hholds⟩
    cases hs.symm.trans hs'
    cases hp.symm.trans hp'
    exact hholds
  · exact fun hholds => ⟨s, p, hs, hp, hholds⟩

section Passes

variable {path : Path}

theorem passes_equals_iff (hkind : column.kind = .text)
    (hpath : column.expression.bind Path.parse? = some path) :
    store.Passes ctx column .equals t row ↔ row.read path .text = .text t := by
  rw [store.passes_iff (hkind ▸ Strategy.strategy?_text) (Strategy.apply_equals hpath ctx _ t),
    holds_equals_iff]

theorem passes_match_iff (hkind : column.kind = .text)
    (hpath : column.expression.bind Path.parse? = some path) (m : TextMatch) :
    store.Passes ctx column m.operator t row ↔
      ∃ s, row.lookup? path.segments = some (.string s) ∧ m.holds s t = true := by
  rw [store.passes_iff (hkind ▸ Strategy.strategy?_text) (Strategy.apply_match hpath ctx _ t m),
    holds_match_iff]

end Passes

/-- **Equal texts match.** Let the filter for values equal to a text keep a row of a column of free
text. Then each of the filters for values that contain the text, start with it or end with it keeps
the row if and only if the text itself is stored there, and not a number or a truth value that is
shown as the text. -/
theorem match_of_equals (ctx : Context) {column : ColumnState} {path : Path}
    (hkind : column.kind = .text) (hpath : column.expression.bind Path.parse? = some path)
    {t : String} {row : Record} (hequals : store.Passes ctx column .equals t row) (m : TextMatch) :
    store.Passes ctx column m.operator t row ↔
      row.lookup? path.segments = some (.string t) := by
  rw [store.passes_equals_iff hkind hpath] at hequals
  rw [store.passes_match_iff hkind hpath]
  constructor
  · rintro ⟨s, hs, -⟩
    unfold Record.read at hequals
    rw [hs] at hequals
    have hsame : s = t := Value.text.inj hequals
    rw [← hsame]
    exact hs
  · exact fun hs => ⟨t, hs, m.holds_self t⟩

/-- A column of free text. -/
def codeColumn : ColumnState where
  name := "code"
  expression := some "code"
  kind := .text

def coded (v : Json) : Record := [("code", v)]

theorem passes_equals_coded {v : Json} (hv : v ∈ [Json.string "5", .number (.integer 5)]) :
    Store.Passes {} (.ofEntity "items") codeColumn .equals "5" (coded v) := by
  have hpath : codeColumn.expression.bind Path.parse? = some ⟨["code"]⟩ := rfl
  rw [passes_equals_iff _ rfl hpath]
  simp only [List.mem_cons, List.not_mem_nil, or_false] at hv
  rcases hv with rfl | rfl <;> decide +kernel

theorem match_of_equals_of_codes :
    codeColumn.kind = .text ∧ codeColumn.expression.bind Path.parse? = some ⟨["code"]⟩ ∧
      (∀ v ∈ [Json.string "5", .number (.integer 5)],
        Store.Passes {} (.ofEntity "items") codeColumn .equals "5" (coded v)) ∧
      ∀ m : TextMatch,
        Store.Passes {} (.ofEntity "items") codeColumn m.operator "5" (coded (.string "5")) ∧
        ¬ Store.Passes {} (.ofEntity "items") codeColumn m.operator "5"
          (coded (.number (.integer 5))) := by
  refine ⟨rfl, rfl, fun v => passes_equals_coded, fun m => ⟨?_, fun h => ?_⟩⟩
  · exact (match_of_equals {} _ rfl rfl (passes_equals_coded (by simp)) m).2 rfl
  · cases (match_of_equals {} _ rfl rfl (passes_equals_coded (by simp)) m).1 h

/-- A stored number equals the text of its digits, but it does not contain them. -/
theorem not_match_of_equals : ¬ ∀ (store : Store) (ctx : Context) (column : ColumnState)
    (path : Path) (t : String) (row : Record), column.kind = .text →
    column.expression.bind Path.parse? = some path → store.Passes ctx column .equals t row →
    store.Passes ctx column .contains t row ∧ store.Passes ctx column .startsWith t row ∧
      store.Passes ctx column .endsWith t row := by
  intro hclaim
  obtain ⟨hcontains, -⟩ := hclaim {} (.ofEntity "items") codeColumn ⟨["code"]⟩ "5"
    (coded (.number (.integer 5))) rfl rfl (passes_equals_coded (by simp))
  obtain ⟨s, hs, -⟩ := (passes_match_iff _ rfl rfl .contains).1 hcontains
  cases hs

end Store

end DataGrid
