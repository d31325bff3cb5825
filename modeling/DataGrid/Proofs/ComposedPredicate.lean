import DataGrid.Filter.Composition
import DataGrid.Proofs.Conjunction

/-!
# The predicate of a request

Composing a request's filters cannot fail, and gives exactly the conjunction of
what the columns contribute, in the order of the columns and then of the options.
A legal operator meets a value that it can be applied to: only free text has text
matches among its operators, and free text is always read as a text.
-/

namespace DataGrid

namespace Strategy

/-- The predicates that filter options are turned into. -/
inductive Built (ctx : Context) : Predicate → Prop
  | compare (path : Path) (kind : Kind) (op : Comparison) (value : Value) :
    Built ctx (.compare path kind op value)
  | matched (path : Path) (op : TextMatch) (pattern : String) :
    Built ctx (.matches path op pattern)
  | duplicates (path : Path) (duplicated : Bool) :
    Built ctx (duplicatePredicate ctx path duplicated)

section Registered

variable {k : Kind} {s : Strategy}

theorem kind_eq (h : k.strategy? = some s) : s.kind = k := by
  obtain ⟨legal, _, rfl⟩ := Option.map_eq_some_iff.mp h
  rfl

theorem legal_eq (h : k.strategy? = some s) : k.legalOperators? = some s.legal := by
  obtain ⟨legal, hl, rfl⟩ := Option.map_eq_some_iff.mp h
  exact hl

theorem equals_mem_legal (h : k.strategy? = some s) : .equals ∈ s.legal := by
  have hl := legal_eq h
  unfold Kind.legalOperators? at hl
  cases hf : k.family with
  | relatedCount => rw [hf] at hl; cases hl
  | numeric | temporal | text | boolean | enumeration =>
    rw [hf] at hl
    rw [← Option.some.inj hl]
    decide

theorem validOperator_mem (h : k.strategy? = some s) (o : Operator) :
    s.validOperator o ∈ s.legal := by
  unfold validOperator
  split
  · assumption
  · exact equals_mem_legal h

/-- A legal operator checks for duplicates, compares, or matches free text. -/
theorem legal_cases (h : k.strategy? = some s) {o : Operator} (ho : o ∈ s.legal) :
    o.isDuplicateCheck ∨ (comparison? o).isSome ∨ (k = .text ∧ (textMatch? o).isSome) := by
  have hl := legal_eq h
  unfold Kind.legalOperators? at hl
  cases hf : k.family with
  | relatedCount => rw [hf] at hl; cases hl
  | text =>
    have hk : k = .text := by cases k <;> first | rfl | cases hf
    rw [hf] at hl
    rw [← Option.some.inj hl] at ho
    have hc : o.isDuplicateCheck ∨ (comparison? o).isSome ∨ (textMatch? o).isSome := by
      revert ho
      cases o <;> decide
    exact hc.imp id (Or.imp id fun hm => ⟨hk, hm⟩)
  | numeric | temporal | boolean | enumeration =>
    rw [hf] at hl
    rw [← Option.some.inj hl] at ho
    have hc : o.isDuplicateCheck ∨ (comparison? o).isSome := by
      revert ho
      cases o <;> decide
    exact hc.imp id .inl

theorem predicateOn_built (s : Strategy) (ctx : Context) (path : Path) {o : Operator}
    {value : Option Value}
    (h : o.isDuplicateCheck ∨ ((comparison? o).isSome ∧ value.isSome) ∨
      ((textMatch? o).isSome ∧ ∃ t, value = some (.text t))) :
    ∃ p, s.predicateOn ctx path o value = .ok p ∧ Built ctx p := by
  rcases h with hd | ⟨hc, hv⟩ | ⟨hm, t, rfl⟩
  · cases o <;> first | exact ⟨_, rfl, .duplicates path _⟩ | cases hd
  · obtain ⟨v, rfl⟩ := Option.isSome_iff_exists.mp hv
    cases o <;> first | exact ⟨_, rfl, .compare path s.kind _ v⟩ | cases hc
  · cases o <;> first | exact ⟨_, rfl, .matched path _ t⟩ | cases hm

/-- A legal operator with a value that it needs fits the value that a text is read as. -/
theorem validOperator_fits (h : k.strategy? = some s) (o : FilterOption)
    (hvalue : ¬ ((s.kind.read? o.value).isNone ∧ !(s.validOperator o.operator).isDuplicateCheck)) :
    (s.validOperator o.operator).isDuplicateCheck ∨
      ((comparison? (s.validOperator o.operator)).isSome ∧ (s.kind.read? o.value).isSome) ∨
      ((textMatch? (s.validOperator o.operator)).isSome ∧
        ∃ t, s.kind.read? o.value = some (.text t)) := by
  rcases legal_cases h (validOperator_mem h o.operator) with hd | hc | ⟨hk, hm⟩
  · exact .inl hd
  · by_cases hd : (s.validOperator o.operator).isDuplicateCheck
    · exact .inl hd
    · refine .inr (.inl ⟨hc, ?_⟩)
      cases hr : s.kind.read? o.value with
      | none => exact absurd ⟨by rw [hr]; rfl, by simp [hd]⟩ hvalue
      | some v => rfl
  · refine .inr (.inr ⟨hm, o.value, ?_⟩)
    rw [kind_eq h, hk]
    rfl

/-- An option gives no constraint or one that can be built; it is never an error. -/
theorem apply_cases (h : k.strategy? = some s) (ctx : Context) (c : ColumnState)
    (o : FilterOption) :
    s.apply ctx c o = .ok none ∨ ∃ p, s.apply ctx c o = .ok (some p) ∧ Built ctx p := by
  have hmem := validOperator_mem h o.operator
  unfold apply build
  rw [if_neg fun hn => hn hmem]
  split
  · exact .inl rfl
  · rename_i hvalue
    cases c.expression.bind Path.parse? with
    | none => exact .inl rfl
    | some path =>
      obtain ⟨p, hp, hb⟩ := predicateOn_built s ctx path (validOperator_fits h o hvalue)
      simp only [hp]
      exact .inr ⟨p, rfl, hb⟩

end Registered

/-- The predicate that an option gives, if it gives one. -/
def predicate? (s : Strategy) (ctx : Context) (c : ColumnState) (o : FilterOption) :
    Option Predicate :=
  match s.apply ctx c o with
  | .ok p => p
  | .error _ => none

theorem apply_eq {k : Kind} {s : Strategy} (h : k.strategy? = some s) (ctx : Context)
    (c : ColumnState) (o : FilterOption) : s.apply ctx c o = .ok (s.predicate? ctx c o) := by
  unfold predicate?
  rcases apply_cases h ctx c o with hn | ⟨p, hp, _⟩
  · rw [hn]
  · rw [hp]

theorem built_of_predicate? {k : Kind} {s : Strategy} (h : k.strategy? = some s) {ctx : Context}
    {c : ColumnState} {o : FilterOption} {p : Predicate} (hp : s.predicate? ctx c o = some p) :
    Built ctx p := by
  unfold predicate? at hp
  rcases apply_cases h ctx c o with hn | ⟨q, hq, hb⟩
  · rw [hn] at hp; cases hp
  · rw [hq] at hp; cases hp; exact hb

end Strategy

namespace FilterSource

variable (s : FilterSource) (ctx : Context)

/-- What a column contributes to the predicate of a request. -/
def contribution (c : Column) : List Predicate :=
  match c.filterEnabled, c.kind.strategy? with
  | true, some strategy =>
    (s.effectiveOptions c.toColumnState).filterMap (strategy.predicate? ctx c.toColumnState)
  | _, _ => []

theorem built_of_mem_contribution {c : Column} {p : Predicate} (hp : p ∈ s.contribution ctx c) :
    Strategy.Built ctx p := by
  unfold contribution at hp
  split at hp
  · rename_i strategy _ hs
    obtain ⟨o, _, ho⟩ := List.mem_filterMap.mp hp
    exact Strategy.built_of_predicate? hs ho
  · cases hp

/-- Adding the options of a column adds the conjunction of what they give. -/
theorem addOptions_eq {k : Kind} {strategy : Strategy} (h : k.strategy? = some strategy)
    (c : ColumnState) (acc : Option Predicate) (os : List FilterOption) :
    addOptions ctx strategy c acc os =
      .ok (Predicate.andOption acc
        (Predicate.ofList? (os.filterMap (strategy.predicate? ctx c)))) := by
  induction os generalizing acc with
  | nil =>
    rw [List.filterMap_nil, Predicate.ofList?_eq_none.mpr rfl, Predicate.andOption_none_right]
    rfl
  | cons o os ih =>
    unfold addOptions
    rw [Strategy.apply_eq h]
    simp only
    rw [ih, List.filterMap_cons]
    cases strategy.predicate? ctx c o with
    | none => rw [Predicate.andOption_none_right]
    | some p => rw [Predicate.andOption_assoc, ← Predicate.ofList?_cons]

/-- Adding one column adds the conjunction of what it contributes. -/
theorem addColumns_cons (acc : Option Predicate) (c : Column) (cs : List Column) :
    addColumns s ctx acc (c :: cs) =
      addColumns s ctx (Predicate.andOption acc (Predicate.ofList? (s.contribution ctx c))) cs := by
  simp only [addColumns, contribution]
  have hnil := Predicate.ofList?_eq_none.mpr rfl
  cases c.filterEnabled with
  | false => simp only [hnil, Predicate.andOption_none_right]
  | true =>
    cases hs : c.kind.strategy? with
    | none => simp only [hnil, Predicate.andOption_none_right]
    | some strategy => simp only [addOptions_eq ctx hs]

/-- Adding columns adds the conjunction of what they contribute. -/
theorem addColumns_eq (acc : Option Predicate) (cs : List Column) :
    addColumns s ctx acc cs =
      .ok (Predicate.andOption acc (Predicate.ofList? (cs.flatMap (s.contribution ctx)))) := by
  induction cs generalizing acc with
  | nil =>
    rw [List.flatMap_nil, Predicate.ofList?_eq_none.mpr rfl, Predicate.andOption_none_right]
    rfl
  | cons c cs ih =>
    rw [addColumns_cons, ih, List.flatMap_cons, Predicate.ofList?_append, Predicate.andOption_assoc]

/-- Without a hook, composing gives the conjunction of what the columns contribute. -/
theorem compose_eq (cs : Columns) (start : Option Predicate) :
    s.compose none ctx cs start =
      .ok (Predicate.andOption start
        (Predicate.ofList? (cs.toList.flatMap (s.contribution ctx)))) :=
  s.addColumns_eq ctx start cs.toList

/-- Composing never fails, with or without a hook. -/
theorem compose_ok (hook : Option ComposeHook) (cs : Columns) (start : Option Predicate) :
    ∃ p, s.compose hook ctx cs start = .ok p := by
  cases hook with
  | some hook => exact ⟨hook start, rfl⟩
  | none => exact ⟨_, s.compose_eq ctx cs start⟩

/-- Sources that agree on columns with filtering on contribute the same. -/
theorem contribution_congr {s t : FilterSource} {ctx : Context} {cs : List Column}
    (h : ∀ c ∈ cs, c.filterEnabled → t.optionsFor c.name = s.optionsFor c.name ∧
      t.isInitial c.toColumnState = s.isInitial c.toColumnState) :
    cs.flatMap (t.contribution ctx) = cs.flatMap (s.contribution ctx) := by
  induction cs with
  | nil => rfl
  | cons c cs ih =>
    rw [List.flatMap_cons, List.flatMap_cons, ih fun d hd => h d (List.mem_cons_of_mem c hd)]
    congr 1
    unfold contribution
    split
    · rename_i strategy he hs
      obtain ⟨ho, hi⟩ := h c List.mem_cons_self he
      unfold effectiveOptions
      rw [ho, hi]
    · rfl

end FilterSource

namespace Settings

variable (s : Settings) (ctx : Context)

/-- The options in force for a column: its initial filter if it has one and the request neither
carries an option for the column nor clears it, and the request's options otherwise. -/
def inForce (c : ColumnState) : List FilterOption :=
  match c.initialFilter with
  | some o => if s.optionsFor c.name = [] ∧ c.name ∉ s.cleared then [o] else s.optionsFor c.name
  | none => s.optionsFor c.name

theorem optionsFor_eq_nil {column : String} :
    s.optionsFor column = [] ↔ s.options.any (·.column = column) = false := by
  unfold optionsFor
  rw [List.filter_eq_nil_iff, List.any_eq_false]

theorem effectiveOptions_source (c : ColumnState) :
    s.source.effectiveOptions c = s.inForce c := by
  unfold FilterSource.effectiveOptions inForce
  change (if s.isInitial c then c.initialFilter.toList else s.optionsFor c.name) = _
  unfold isInitial
  cases c.initialFilter with
  | none => rfl
  | some o =>
    simp only [optionsFor_eq_nil]
    by_cases hc : c.name ∈ s.cleared <;> cases s.options.any (·.column = c.name) <;> simp [hc]

/-- What a column contributes to the predicate of a request. -/
def contribution (c : Column) : List Predicate :=
  match c.filterEnabled, c.kind.strategy? with
  | true, some strategy =>
    (s.inForce c.toColumnState).filterMap (strategy.predicate? ctx c.toColumnState)
  | _, _ => []

theorem contribution_source : s.source.contribution ctx = s.contribution ctx := by
  funext c
  unfold FilterSource.contribution contribution
  simp only [effectiveOptions_source]

/-- **A request's predicate is the conjunction of what its columns contribute.** It is absent
exactly when nothing contributes, and requests that agree on the options and the initial state of
the columns with filtering on have the same predicate. -/
theorem compose_eq_conjunction (cs : Columns) (start : Option Predicate) :
    s.source.compose none ctx cs start =
        .ok (Predicate.andOption start
          (Predicate.ofList? (cs.toList.flatMap (s.contribution ctx)))) ∧
      (s.source.compose none ctx cs start = .ok none ↔
        start = none ∧ cs.toList.flatMap (s.contribution ctx) = []) ∧
      ∀ t : Settings,
        (∀ c ∈ cs.toList, c.filterEnabled → t.optionsFor c.name = s.optionsFor c.name ∧
          t.isInitial c.toColumnState = s.isInitial c.toColumnState) →
        t.source.compose none ctx cs start = s.source.compose none ctx cs start := by
  have heq := s.source.compose_eq ctx cs start
  rw [contribution_source] at heq
  refine ⟨heq, ?_, fun t h => ?_⟩
  · rw [heq, Except.ok.injEq, Predicate.andOption_eq_none, Predicate.ofList?_eq_none]
  · have hcongr : cs.toList.flatMap (t.source.contribution ctx) =
        cs.toList.flatMap (s.source.contribution ctx) := FilterSource.contribution_congr h
    rw [t.source.compose_eq, s.source.compose_eq, hcongr]

/-- An option for a column without filtering does not count. -/
theorem compose_of_unfiltered :
    (Settings.source ⟨[⟨"Name", .equals, "Tea"⟩, ⟨"Stock", .equals, "3"⟩], []⟩).compose none
        (.ofEntity "products")
        ⟨[(Column.ofExpression "Name" .text).enableFilter true, .ofExpression "Stock" .int]⟩ none =
      (Settings.source ⟨[⟨"Name", .equals, "Tea"⟩], []⟩).compose none (.ofEntity "products")
        ⟨[(Column.ofExpression "Name" .text).enableFilter true, .ofExpression "Stock" .int]⟩ none :=
  (compose_eq_conjunction _ _ _ _).2.2 _ (by decide)

end Settings

end DataGrid
