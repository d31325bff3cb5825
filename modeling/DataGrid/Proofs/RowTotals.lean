import DataGrid.Proofs.ColumnSupport
import DataGrid.Proofs.ReadValues
import DataGrid.Proofs.Selection
import Mathlib.Data.List.Forall2

/-!
# The totals of rows

What a total of a column is, said without queries: each row gives the field that the
column names or the count of its related rows, nulls are passed over, and the rest is
aggregated. A scalar query over a projection that the column can have computes this
total of the selected rows, and the only way it can fail is an entity that is not there.
-/

namespace DataGrid

open Number

/-- The aggregate of a slot. -/
def TotalSlot.aggregate : TotalSlot → Aggregate
  | sum => .sum
  | average => .average
  | max => .max
  | min => .min

/-- The total of a slot over the values that rows give, without nulls. -/
def TotalSlot.totalOf (slot : TotalSlot) (value : Record → Value) (rows : List Record) :
    Except NotNumeric Total :=
  (slot.aggregate.apply ((rows.map value).filter (!·.isNull))).map Total.ofResult

namespace Store

variable (store : Store)

/-- The count of the rows of an entity that agree with a row on every pair of fields. -/
def relatedCount (entity : String) (pairs : List (Path × Path)) (row : Record) : Value :=
  .int (wordOfCount (((store.rows? entity).getD []).filter (correlated pairs · row)).length)

/-- What a column's totals take from a row: its field, read as the column's kind, or the count of
its related rows. -/
def totalled? (c : ColumnState) : Option (Record → Value) :=
  match c.kind.family with
  | .numeric | .temporal | .text => do
    let path ← Path.parse? (← c.expression)
    return fun row => row.read path c.kind
  | .relatedCount => do
    let r ← c.relation
    return store.relatedCount r.entity (← r.pairs?)
  | .boolean | .enumeration => none

/-! ## Projections -/

variable {p : Projection} {rows : List Record}

/-- Projecting rows succeeds when it succeeds on each of them. -/
theorem projectAll_eq_ok {vs : List Value} :
    store.projectAll p rows = .ok vs ↔
      List.Forall₂ (fun row v => store.project p row = .ok v) rows vs := by
  induction rows generalizing vs with
  | nil =>
    simp only [projectAll, Except.ok.injEq, List.forall₂_nil_left_iff]
    exact eq_comm
  | cons row rows ih =>
    rw [List.forall₂_cons_left_iff]
    simp only [projectAll]
    cases hp : store.project p row with
    | error e => simp
    | ok v =>
      cases ha : store.projectAll p rows with
      | error e =>
        simp only [← ih, ha]
        simp
      | ok rest =>
        simp only [← ih, ha, Except.ok.injEq]
        constructor
        · rintro rfl
          exact ⟨v, rest, rfl, rfl, rfl⟩
        · rintro ⟨b, bs, rfl, rfl, rfl⟩
          rfl

theorem projectAll_eq_map {value : Record → Value}
    (hv : ∀ row v, store.project p row = .ok v → v = value row) {vs : List Value}
    (h : store.projectAll p rows = .ok vs) : vs = rows.map value := by
  have heach := (store.projectAll_eq_ok.mp h).imp fun row v hp => (hv row v hp).symm
  rw [← List.forall₂_map_left_iff, List.forall₂_eq_eq_eq] at heach
  exact heach.symm

theorem projectAll_error {e : QueryError} (h : store.projectAll p rows = .error e) :
    ∃ row, store.project p row = .error e := by
  induction rows with
  | nil => cases h
  | cons row rows ih =>
    simp only [projectAll] at h
    cases hp : store.project p row with
    | error e' => rw [hp] at h; cases h; exact ⟨row, hp⟩
    | ok v =>
      rw [hp] at h
      cases ha : store.projectAll p rows with
      | error e' => rw [ha] at h; cases h; exact ih ha
      | ok rest => rw [ha] at h; cases h

theorem exists_of_mem_projectAll {vs : List Value} (h : store.projectAll p rows = .ok vs)
    {v : Value} (hv : v ∈ vs) : ∃ row, store.project p row = .ok v := by
  have hflip : List.Forall₂ (fun v row => (∃ row, store.project p row = .ok v) ∧
      store.project p row = .ok v) vs rows :=
    ((store.projectAll_eq_ok.mp h).imp fun row _ hp => ⟨⟨row, hp⟩, hp⟩).flip
  exact ((List.forall₂_and_left vs rows).mp hflip).1 v hv

theorem project_error {row : Record} {e : QueryError} (h : store.project p row = .error e) :
    store.Misses e := by
  cases p with
  | field path kind => cases h
  | count counted =>
    simp only [project] at h
    cases hc : store.countRows counted row with
    | error e' => rw [hc] at h; cases h; exact store.countRows_error counted hc
    | ok n => rw [hc] at h; cases h

theorem project_related {entity : String} {pairs : List (Path × Path)} {row : Record} {v : Value}
    (h : store.project (.count (.mk entity none pairs)) row = .ok v) :
    v = store.relatedCount entity pairs row := by
  simp only [project] at h
  cases hc : store.countRows (.mk entity none pairs) row with
  | error e => rw [hc] at h; cases h
  | ok n =>
    rw [hc] at h
    cases h
    obtain ⟨rows, hrows, -, rfl⟩ := store.countRows_eq_ok.mp hc
    rw [relatedCount, store.rows?_of_rows hrows, store.filter_satisfies_none]
    rfl

/-! ## Scalars -/

theorem scalar_inv {q : AggregateQuery} {v : Value} (h : store.scalar q = .ok v) :
    ∃ rows values, store.select q.source = .ok rows ∧
      store.projectAll q.projection rows = .ok values ∧
      q.aggregate.apply (values.filter (!·.isNull)) = .ok v := by
  unfold scalar at h
  cases hs : store.select q.source with
  | error e => rw [hs] at h; cases h
  | ok rows =>
    simp only [hs] at h
    cases hp : store.projectAll q.projection rows with
    | error e => rw [hp] at h; cases h
    | ok values =>
      simp only [hp] at h
      cases ha : q.aggregate.apply (values.filter (!·.isNull)) with
      | error cause => rw [ha] at h; cases h
      | ok value => rw [ha] at h; cases h; exact ⟨rows, values, rfl, hp, ha⟩

theorem scalar_of_values {q : Query} {a : Aggregate} {values : List Value} {v : Value}
    (hs : store.select q = .ok rows) (hp : store.projectAll p rows = .ok values)
    (ha : a.apply (values.filter (!·.isNull)) = .ok v) : store.scalar ⟨q, p, a⟩ = .ok v := by
  simp only [scalar, hs, hp, ha]

end Store

/-! ## What a column can have -/

namespace ColumnState.Supports

variable {c : ColumnState} {support : Support} (h : c.Supports support) (store : Store)

include h

/-- An aggregate that a column can have is that of its slot: the extremes of numbers and of other
values are one function. -/
theorem apply_eq {slot : TotalSlot} {aggregate : Aggregate}
    (hm : (slot, aggregate) ∈ support.slots) (vs : List Value) :
    aggregate.apply vs = slot.aggregate.apply vs := by
  cases h with
  | numbers | related =>
    simp only [Support.numeric, List.mem_cons, List.not_mem_nil, or_false] at hm
    rcases hm with hm | hm | hm | hm <;> cases hm <;> rfl
  | extremes =>
    simp only [Support.extremes, List.mem_cons, List.not_mem_nil, or_false] at hm
    rcases hm with hm | hm <;> cases hm <;> cases vs <;> rfl

/-- What a column's aggregates are taken from is what its totals take from a row. -/
theorem project_eq : ∃ value, store.totalled? c = some value ∧
    ∀ row v, store.project support.projection row = .ok v → v = value row := by
  cases h with
  | @numbers expression path hk he hp =>
    refine ⟨fun row => row.read path c.kind, ?_, fun row v hv => (Except.ok.inj hv).symm⟩
    simp [Store.totalled?, hk, he, hp]
  | @extremes expression path hk he hp =>
    refine ⟨fun row => row.read path c.kind, ?_, fun row v hv => (Except.ok.inj hv).symm⟩
    rcases hk with hk | hk <;> simp [Store.totalled?, hk, he, hp]
  | @related r pairs hk hr hp =>
    refine ⟨store.relatedCount r.entity pairs, ?_, fun row v => store.project_related⟩
    simp [Store.totalled?, hk, hr, hp]

/-- The column's values can be taken from every row, provided that the entity is there which the
rows to be counted come from. -/
theorem project_ok
    (hp : c.kind = .relatedCount → ∀ r, c.relation = some r →
      ∃ rows, store.rows r.entity = .ok rows)
    (row : Record) : ∃ v, store.project support.projection row = .ok v := by
  cases h with
  | numbers | extremes => exact ⟨_, rfl⟩
  | @related r pairs hk hr _ =>
    obtain ⟨rows, hrows⟩ := hp (Kind.eq_relatedCount hk) r hr
    have hall : ∀ row ∈ rows, ∃ b, store.holdsOption none row = .ok b := fun _ _ => ⟨true, rfl⟩
    obtain ⟨n, hn⟩ := store.countRows_ok hrows hall pairs row
    exact ⟨.int n, by simp only [Support.numeric, Store.project, hn]⟩

/-- What is taken from a row is null or has the type of the column's kind. -/
theorem project_suits {row : Record} {v : Value}
    (hv : store.project support.projection row = .ok v) :
    v = .null ∨ v.suits c.kind.family := by
  cases h with
  | numbers | extremes =>
    cases hv
    exact row.read_suits _ c.kind
  | related hk =>
    rw [store.project_related hv, hk]
    exact .inr rfl

/-- Sums and means are taken from numbers and nulls only. -/
theorem project_isNumber {slot : TotalSlot} {aggregate : Aggregate}
    (hm : (slot, aggregate) ∈ support.slots) (ha : aggregate.adds) {row : Record} {v : Value}
    (hv : store.project support.projection row = .ok v) : v = .null ∨ v.isNumber := by
  have hs := h.project_suits store hv
  cases h with
  | numbers hk | related hk => rwa [hk] at hs
  | extremes =>
    simp only [Support.extremes, List.mem_cons, List.not_mem_nil, or_false] at hm
    rcases hm with hm | hm <;> cases hm <;> cases ha

/-- A scalar query over what a column can have fails only where its rows cannot be selected or a
row cannot be projected. -/
theorem scalar_error {slot : TotalSlot} {aggregate : Aggregate}
    (hm : (slot, aggregate) ∈ support.slots) {q : Query} {e : QueryError}
    (he : store.scalar ⟨q, support.projection, aggregate⟩ = .error e) :
    store.select q = .error e ∨ ∃ row, store.project support.projection row = .error e := by
  unfold Store.scalar at he
  cases hs : store.select q with
  | error e' => rw [hs] at he; cases he; exact .inl rfl
  | ok rows =>
    simp only [hs] at he
    cases hp : store.projectAll support.projection rows with
    | error e' => rw [hp] at he; cases he; exact .inr (store.projectAll_error hp)
    | ok values =>
      have hnumbers : aggregate.adds → ∀ v ∈ values.filter (!·.isNull), v.isNumber := by
        intro ha v hv
        obtain ⟨hmem, hnull⟩ := List.mem_filter.mp hv
        obtain ⟨row, hrow⟩ := store.exists_of_mem_projectAll hp hmem
        rcases h.project_isNumber store hm ha hrow with rfl | hn
        · cases hnull
        · exact hn
      obtain ⟨v, hv⟩ := Aggregate.apply_ok hnumbers
      simp only [hp, hv] at he
      cases he

/-- A scalar query over what a column can have computes the total of the selected rows. -/
theorem scalar_eq_totalOf {slot : TotalSlot} {aggregate : Aggregate}
    (hm : (slot, aggregate) ∈ support.slots) {q : Query} {v : Value}
    (hv : store.scalar ⟨q, support.projection, aggregate⟩ = .ok v) :
    ∃ rows value, store.select q = .ok rows ∧ store.totalled? c = some value ∧
      slot.totalOf value rows = .ok (Total.ofResult v) := by
  obtain ⟨rows, values, hs, hp, ha⟩ := store.scalar_inv hv
  obtain ⟨value, ht, hproject⟩ := h.project_eq store
  rw [store.projectAll_eq_map hproject hp, h.apply_eq hm] at ha
  exact ⟨rows, value, hs, ht, by rw [TotalSlot.totalOf, ha]; rfl⟩

end ColumnState.Supports

end DataGrid
