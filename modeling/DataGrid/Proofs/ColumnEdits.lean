import DataGrid.Column

/-!
# Columns under any calls

A column is made with a name or of an expression, and then calls build it up and change it, in any
order and number; some of them are refused softly. Four parts that are stored apart stay in step:
filtering and sorting are on only where there is an expression, the order chain starts with that
expression, a filter of the column names the column, and the calculation flag tells whether there
are calculations. Whether the column itself has said how it is sorted is kept through every call,
and from then on a default is without effect.
-/

namespace DataGrid

theorem TotalFlags.calculation_set (f : TotalFlags) (slot : TotalSlot) (enabled : Bool) :
    (f.set slot enabled).calculation = f.calculation := by
  cases slot <;> rfl

namespace Column

/-- A call that builds or changes a column. -/
inductive Edit where
  | expression (expression : String)
  | title (title : String)
  | format (pattern : String)
  | relation (r : Relation)
  | hidden (hidden : Bool)
  | initialFilter (operator : Operator) (value : String)
  | filtering (enabled : Bool)
  | sorting (enabled : Bool) (mode : SortMode)
  | defaultSorting (enabled : Bool) (mode : SortMode)
  | thenBy (expression : String) (d : Direction)
  | initialDirection (d : Direction)
  | direction (d : Option Direction)
  | calculation (k : Calculation)
  | flag (slot : TotalSlot) (enabled : Bool)
  | noAggregates
  | value (slot : TotalSlot) (total : Total)
  | calculationValue (name : String) (total : Total)
  | noTotals

/-- The column after a call. -/
def edit (c : Column) : Edit → Column
  | .expression e => c.withExpression e
  | .title t => c.withTitle t
  | .format pattern => c.withFormat pattern
  | .relation r => c.withRelation r
  | .hidden hidden => c.withHidden hidden
  | .initialFilter operator value => c.withInitialFilter operator value
  | .filtering enabled => c.enableFilter enabled
  | .sorting enabled mode => c.enableSort enabled mode
  | .defaultSorting enabled mode => c.defaultSort enabled mode
  | .thenBy e d => c.thenSortBy e d
  | .initialDirection d => c.withInitialDirection d
  | .direction d => c.setDirection d
  | .calculation k => c.withCalculation k
  | .flag slot enabled => c.setFlag slot enabled
  | .noAggregates => c.disableAggregates
  | .value slot total => c.setValue slot total
  | .calculationValue name total => c.pushCalculation name total
  | .noTotals => c.clearTotals

namespace Edit

def thenBy? : Edit → Option ThenBy
  | thenBy e d => some ⟨e, d⟩
  | _ => none

def calculation? : Edit → Option Calculation
  | calculation k => some k
  | _ => none

/-- Whether a call says for the column itself how it is sorted. -/
def settlesSort : Edit → Bool
  | sorting _ _ => true
  | _ => false

end Edit

/-- The columns that calls make, each with its calls in order. -/
inductive Made : List Edit → Column → Prop where
  | named (name : String) (kind : Kind) : Made [] (named name kind)
  | ofExpression (expression : String) (kind : Kind) : Made [] (ofExpression expression kind)
  | edit {edits : List Edit} {c : Column} (h : Made edits c) (e : Edit) :
    Made (edits ++ [e]) (c.edit e)

/-- What calls keep of a column. -/
structure Consistent (edits : List Edit) (c : Column) : Prop where
  filtered : c.filterEnabled = true → c.expression.isSome = true
  sorted : c.sortEnabled = true → c.expression.isSome = true
  primary : c.orderers.primary = c.expression
  thenBy : c.orderers.thenBy = edits.filterMap Edit.thenBy?
  initialFilter : ∀ o, c.initialFilter = some o → o.column = c.name
  calculations : c.calculations = edits.filterMap Edit.calculation?
  flagged : c.flags.calculation = true ↔ c.calculations ≠ []
  sortDefined : c.sortDefined = edits.any Edit.settlesSort

namespace Consistent

variable {edits : List Edit} {c : Column}

theorem of_named (name : String) (kind : Kind) : Consistent [] (named name kind) where
  filtered h := by cases h
  sorted h := by cases h
  primary := rfl
  thenBy := rfl
  initialFilter _ h := by cases h
  calculations := rfl
  flagged := ⟨fun h => (Bool.false_ne_true h).elim, fun h => absurd rfl h⟩
  sortDefined := rfl

theorem filterMap_append_none {β : Type} {f : Edit → Option β} {e : Edit} (h : f e = none) :
    (edits ++ [e]).filterMap f = edits.filterMap f := by
  rw [List.filterMap_append, List.filterMap_cons_none h, List.filterMap_nil, List.append_nil]

theorem any_append_false {e : Edit} (h : e.settlesSort = false) :
    (edits ++ [e]).any Edit.settlesSort = edits.any Edit.settlesSort := by
  rw [List.any_append, List.any_cons, h, List.any_nil, Bool.or_false, Bool.or_false]

/-- A call that registers nothing leaves nothing to catch up with. -/
theorem of_idle (h : Consistent edits c) {e : Edit} (hthenBy : e.thenBy? = none)
    (hcalculation : e.calculation? = none) (hsort : e.settlesSort = false) :
    Consistent (edits ++ [e]) c :=
  { h with
    thenBy := h.thenBy.trans (filterMap_append_none hthenBy).symm
    calculations := h.calculations.trans (filterMap_append_none hcalculation).symm
    sortDefined := h.sortDefined.trans (any_append_false hsort).symm }

theorem withExpression (h : Consistent edits c) (e : String) :
    Consistent edits (c.withExpression e) :=
  { h with filtered := fun _ => rfl, sorted := fun _ => rfl, primary := rfl }

theorem isSome_of_enableSort (enabled : Bool) (mode : SortMode)
    (hs : (c.enableSort enabled mode).sortEnabled = true) : c.expression.isSome = true :=
  (Bool.and_eq_true_iff.1 hs).2

/-- A default takes effect only where the column has not said how it is sorted. -/
theorem defaultSort (h : Consistent edits c) (enabled : Bool) (mode : SortMode) :
    Consistent edits (c.defaultSort enabled mode) := by
  unfold Column.defaultSort
  by_cases hdefined : c.sortDefined = true
  · rw [if_pos hdefined]
    exact h
  · rw [if_neg hdefined]
    have hopen : false = edits.any Edit.settlesSort :=
      (Bool.eq_false_iff.2 hdefined).symm.trans h.sortDefined
    exact { h with sorted := isSome_of_enableSort enabled mode, sortDefined := hopen }

theorem edit (h : Consistent edits c) (e : Edit) : Consistent (edits ++ [e]) (c.edit e) := by
  -- Most calls register nothing; each of the last three registers one thing.
  cases e with
  | expression e => exact (h.of_idle rfl rfl rfl).withExpression e
  | title | format | relation | hidden | initialDirection | direction | noAggregates | value
  | calculationValue | noTotals => exact { h.of_idle rfl rfl rfl with }
  | initialFilter operator value =>
    exact { h.of_idle rfl rfl rfl with initialFilter := fun o ho => by cases ho; rfl }
  | filtering enabled =>
    exact { h.of_idle rfl rfl rfl with filtered := fun hf => (Bool.and_eq_true_iff.1 hf).2 }
  | defaultSorting enabled mode => exact (h.of_idle rfl rfl rfl).defaultSort enabled mode
  | flag slot enabled =>
    have hflag := TotalFlags.calculation_set c.flags slot enabled
    exact { h.of_idle rfl rfl rfl with flagged := hflag ▸ h.flagged }
  | sorting enabled mode =>
    have hsettled : true = (edits ++ [Edit.sorting enabled mode]).any Edit.settlesSort := by
      rw [List.any_append]
      exact (Bool.or_true _).symm
    exact { h with
      thenBy := h.thenBy.trans (filterMap_append_none rfl).symm
      calculations := h.calculations.trans (filterMap_append_none rfl).symm
      sorted := isSome_of_enableSort enabled mode
      sortDefined := hsettled }
  | thenBy e d =>
    have hregistered : c.orderers.thenBy ++ [⟨e, d⟩] =
        (edits ++ [Edit.thenBy e d]).filterMap Edit.thenBy? := by
      rw [List.filterMap_append, h.thenBy]
      rfl
    exact { h with
      thenBy := hregistered
      calculations := h.calculations.trans (filterMap_append_none rfl).symm
      sortDefined := h.sortDefined.trans (any_append_false rfl).symm }
  | calculation k =>
    have hregistered : c.calculations ++ [k] =
        (edits ++ [Edit.calculation k]).filterMap Edit.calculation? := by
      rw [List.filterMap_append, h.calculations]
      rfl
    exact { h with
      thenBy := h.thenBy.trans (filterMap_append_none rfl).symm
      calculations := hregistered
      flagged := ⟨fun _ => List.concat_ne_nil k c.calculations, fun _ => rfl⟩
      sortDefined := h.sortDefined.trans (any_append_false rfl).symm }

end Consistent

theorem Made.foldl {edits : List Edit} {c : Column} (h : Made edits c) (more : List Edit) :
    Made (edits ++ more) (more.foldl Column.edit c) := by
  induction more generalizing edits c with
  | nil => rwa [List.append_nil]
  | cons e more ih =>
    rw [List.append_cons]
    exact ih (h.edit e)

theorem Made.consistent {edits : List Edit} {c : Column} (h : Made edits c) :
    Consistent edits c := by
  induction h with
  | named name kind => exact .of_named name kind
  | ofExpression e kind => exact (Consistent.of_named e kind).withExpression e
  | edit _ e ih => exact ih.edit e

/-- **Columns stay well-formed whatever the call order.** Of every column that calls make:
filtering or sorting is on only with an expression, the order chain starts with the expression and
goes on with the registered tie-breakers in order, an initial filter names the column, and the
calculation flag is on exactly if a calculation was registered. Once a call has said how the column
is sorted, a default changes neither whether it is sorted nor the mode. -/
theorem made_well_formed {edits : List Edit} {c : Column} (h : Made edits c) :
    (c.filterEnabled = true ∨ c.sortEnabled = true → c.expression.isSome = true) ∧
      c.orderers = ⟨c.expression, edits.filterMap Edit.thenBy?⟩ ∧
      (∀ o, c.initialFilter = some o → o.column = c.name) ∧
      c.calculations = edits.filterMap Edit.calculation? ∧
      (c.flags.calculation = true ↔ c.calculations ≠ []) ∧
      (edits.any Edit.settlesSort = true → ∀ (enabled : Bool) (mode : SortMode),
        (c.edit (.defaultSorting enabled mode)).sortEnabled = c.sortEnabled ∧
        (c.edit (.defaultSorting enabled mode)).sortMode = c.sortMode) := by
  have hc := h.consistent
  refine ⟨?_, ?_, hc.initialFilter, hc.calculations, hc.flagged, ?_⟩
  · rintro (hfilter | hsort)
    · exact hc.filtered hfilter
    · exact hc.sorted hsort
  · rw [← hc.primary, ← hc.thenBy]
  · intro hsettled enabled mode
    have hidle : c.defaultSort enabled mode = c := if_pos (hc.sortDefined.trans hsettled)
    show (c.defaultSort enabled mode).sortEnabled = _ ∧ (c.defaultSort enabled mode).sortMode = _
    rw [hidle]
    exact ⟨rfl, rfl⟩

/-- Calls of which the first comes too early, before there is an expression. -/
def marginEdits : List Edit :=
  [.filtering true, .sorting false .twoState, .thenBy "id" .descending, .expression "net",
    .filtering true, .initialFilter .equals "7", .calculation ⟨"count", fun _ => .int 1⟩,
    .noAggregates]

def marginColumn : Column := marginEdits.foldl edit (named "Margin" .decimal)

theorem made_well_formed_of_margin :
    Made marginEdits marginColumn ∧ marginColumn.filterEnabled = true ∧
      marginColumn.expression.isSome = true ∧
      marginColumn.orderers = ⟨some "net", [⟨"id", .descending⟩]⟩ ∧
      (∀ o, marginColumn.initialFilter = some o → o.column = "Margin") ∧
      marginColumn.flags.calculation = true ∧
      (marginColumn.edit (.defaultSorting true .threeState)).sortEnabled = false ∧
      (marginColumn.edit (.defaultSorting true .threeState)).sortMode = .twoState := by
  have hmade : Made marginEdits marginColumn := (Made.named "Margin" .decimal).foldl marginEdits
  obtain ⟨hexpression, horderers, hfilter, hcalculations, hflag, hdefault⟩ := made_well_formed hmade
  obtain ⟨hsort, hmode⟩ := hdefault rfl true .threeState
  have hsome : marginColumn.calculations ≠ [] := by
    rw [hcalculations]
    exact List.cons_ne_nil _ _
  exact ⟨hmade, rfl, hexpression (.inl rfl), horderers, hfilter, hflag.2 hsome, hsort, hmode⟩

end Column

end DataGrid
