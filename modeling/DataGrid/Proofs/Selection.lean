import DataGrid.Proofs.Conjunction
import DataGrid.Proofs.StableSorts

/-!
# Which rows a query selects

`select` succeeds exactly when the entity is there and the predicate has an answer
on every stored row, and then it is a filter of the stored rows. The only thing
that can go wrong is an entity that is not there: no stored value makes a
predicate, a count or a selection fail. Ordering a query permutes what it selects,
unless the order contradicts itself.
-/

namespace DataGrid

/-- Whether a condition that may fail has the answer yes. -/
def affirmed {ε : Type} : Except ε Bool → Bool
  | .ok b => b
  | .error _ => false

@[simp] theorem affirmed_ok {ε : Type} (b : Bool) : affirmed (.ok b : Except ε Bool) = b := rfl

section Keep

variable {ε α : Type} {p : α → Except ε Bool}

theorem keep_eq_ok {as bs : List α} :
    keep p as = .ok bs ↔
      (∀ a ∈ as, ∃ b, p a = .ok b) ∧ bs = as.filter fun a => affirmed (p a) := by
  induction as generalizing bs with
  | nil => simp [keep, eq_comm]
  | cons a as ih =>
    rw [List.forall_mem_cons, List.filter_cons]
    rcases ha : p a with e | b
    · simp [keep, ha]
    · cases b with
      | false => simp [keep, ha, ih]
      | true =>
        cases hk : keep p as with
        | error e =>
          have hn : ¬ ∀ a ∈ as, ∃ b, p a = .ok b := by
            intro hall
            have hf := ih.mpr ⟨hall, rfl⟩
            rw [hk] at hf
            cases hf
          simp only [keep, ha, hk, hn]
          simp
        | ok rest =>
          obtain ⟨hall, hrest⟩ := ih.mp hk
          simp only [keep, ha, hk, affirmed_ok, if_true, Except.ok.injEq, hrest]
          exact ⟨fun h => ⟨⟨⟨true, rfl⟩, hall⟩, h.symm⟩, fun h => h.2.symm⟩

theorem keep_error {as : List α} {e : ε} (h : keep p as = .error e) :
    ∃ a ∈ as, p a = .error e := by
  induction as with
  | nil => cases h
  | cons a as ih =>
    simp only [keep] at h
    rcases ha : p a with e' | b
    · rw [ha] at h
      cases h
      exact ⟨a, List.mem_cons_self, ha⟩
    · have hrest : keep p as = .error e := by
        cases b with
        | false => rwa [ha] at h
        | true =>
          rw [ha] at h
          cases hk : keep p as with
          | error e' => rw [hk] at h; cases h; rfl
          | ok rest => rw [hk] at h; cases h
      obtain ⟨x, hx, he⟩ := ih hrest
      exact ⟨x, List.mem_cons_of_mem a hx, he⟩

end Keep

namespace Store

open Number StableSort

variable (store : Store)

/-- Whether a row satisfies a predicate, if there is one. -/
def satisfies (p : Option Predicate) (row : Record) : Bool := affirmed (store.holdsOption p row)

theorem satisfies_andOption (p q : Option Predicate) (row : Record) :
    store.satisfies (Predicate.andOption p q) row =
      (store.satisfies p row && store.satisfies q row) := by
  unfold satisfies
  rw [holdsOption_andOption]
  rcases store.holdsOption p row with e | b
  · rfl
  · cases b <;> rfl

/-! ## What can go wrong -/

/-- The error names an entity that is not in the store. -/
def Misses (e : QueryError) : Prop := ∃ name, e = .unknownEntity name ∧ store.rows? name = none

theorem rows?_of_rows {entity : String} {rows : List Record} (h : store.rows entity = .ok rows) :
    store.rows? entity = some rows := by
  unfold Store.rows at h
  cases hr : store.rows? entity with
  | none => rw [hr] at h; cases h
  | some _ => rw [hr] at h; cases h; rfl

theorem rows_error {entity : String} {e : QueryError} (h : store.rows entity = .error e) :
    store.Misses e := by
  unfold rows at h
  cases hr : store.rows? entity with
  | some rows => rw [hr] at h; cases h
  | none => rw [hr] at h; cases h; exact ⟨entity, rfl, hr⟩

mutual

theorem holds_error :
    ∀ (p : Predicate) {row : Record} {e : QueryError}, store.holds p row = .error e →
      store.Misses e
  | .compare path kind op value, row, e, h => by simp only [holds] at h; cases h
  | .matches path op pattern, row, e, h => by
    simp only [holds] at h
    split at h <;> cases h
  | .count counted op bound, row, e, h => by
    simp only [holds] at h
    cases hc : store.countRows counted row with
    | error e' => rw [hc] at h; cases h; exact countRows_error counted hc
    | ok n => rw [hc] at h; cases h
  | .all parts, row, e, h => by
    simp only [holds] at h
    exact holdsAll_error parts h

theorem holdsAll_error :
    ∀ (ps : List Predicate) {row : Record} {e : QueryError}, store.holdsAll ps row = .error e →
      store.Misses e
  | [], row, e, h => by simp only [holdsAll] at h; cases h
  | p :: ps, row, e, h => by
    simp only [holdsAll] at h
    rcases hp : store.holds p row with e' | b
    · rw [hp] at h; cases h; exact holds_error p hp
    · rw [hp] at h
      cases b with
      | false => cases h
      | true => exact holdsAll_error ps h

theorem holdsOption_error :
    ∀ (p : Option Predicate) {row : Record} {e : QueryError}, store.holdsOption p row = .error e →
      store.Misses e
  | none, row, e, h => by simp only [holdsOption] at h; cases h
  | some p, row, e, h => by simp only [holdsOption] at h; exact holds_error p h

theorem countRows_error :
    ∀ (counted : CorrelatedCount) {row : Record} {e : QueryError},
      store.countRows counted row = .error e → store.Misses e
  | .mk entity filter correlations, row, e, h => by
    simp only [countRows] at h
    cases hr : store.rows entity with
    | error e' => rw [hr] at h; cases h; exact store.rows_error hr
    | ok rows =>
      simp only [hr] at h
      cases hk : keep (fun row => store.holdsOption filter row) rows with
      | error e' =>
        rw [hk] at h
        cases h
        obtain ⟨inner, _, hi⟩ := keep_error hk
        exact holdsOption_error filter hi
      | ok inner => rw [hk] at h; cases h

end

/-! ## Counts -/

/-- A count succeeds when its entity is there and its filter has an answer on every row of it. -/
theorem countRows_eq_ok {entity : String} {filter : Option Predicate}
    {correlations : List (Path × Path)} {outer : Record} {n : Int64} :
    store.countRows (.mk entity filter correlations) outer = .ok n ↔
      ∃ rows, store.rows entity = .ok rows ∧
        (∀ row ∈ rows, ∃ b, store.holdsOption filter row = .ok b) ∧
        n = wordOfCount ((rows.filter (store.satisfies filter)).filter
          (correlated correlations · outer)).length := by
  simp only [countRows]
  cases hr : store.rows entity with
  | error e => simp
  | ok rows =>
    simp only [Except.ok.injEq, exists_eq_left']
    cases hk : keep (fun row => store.holdsOption filter row) rows with
    | error e =>
      obtain ⟨row, hrow, he⟩ := keep_error hk
      constructor
      · intro h
        cases h
      · intro h
        obtain ⟨b, hb⟩ := h.1 row hrow
        rw [he] at hb
        cases hb
    | ok inner =>
      obtain ⟨hall, hinner⟩ := keep_eq_ok.mp hk
      simp only [Except.ok.injEq, hinner]
      exact ⟨fun h => ⟨hall, h.symm⟩, fun h => h.2.symm⟩

theorem countRows_ok {entity : String} {filter : Option Predicate} {rows : List Record}
    (hr : store.rows entity = .ok rows)
    (hf : ∀ row ∈ rows, ∃ b, store.holdsOption filter row = .ok b)
    (correlations : List (Path × Path)) (outer : Record) :
    ∃ n, store.countRows (.mk entity filter correlations) outer = .ok n :=
  ⟨_, store.countRows_eq_ok.mpr ⟨rows, hr, hf, rfl⟩⟩

/-! ## Queries -/

theorem select_eq_ok {q : Query} {rows : List Record} :
    store.select q = .ok rows ↔
      ∃ stored, store.rows q.entity = .ok stored ∧
        (∀ row ∈ stored, ∃ b, store.holdsOption q.predicate row = .ok b) ∧
        rows = stored.filter (store.satisfies q.predicate) := by
  unfold select
  cases hr : store.rows q.entity with
  | error e => simp
  | ok stored =>
    simp only [Except.ok.injEq, exists_eq_left']
    exact keep_eq_ok

@[simp] theorem filter_satisfies_none (rows : List Record) :
    rows.filter (store.satisfies none) = rows :=
  List.filter_eq_self.2 fun _ _ => rfl

/-- A query without a predicate selects every stored row. -/
theorem select_unfiltered {q : Query} {rows : List Record} (hp : q.predicate = none)
    (hrows : store.rows q.entity = .ok rows) : store.select q = .ok rows := by
  rw [select_eq_ok, hp]
  exact ⟨rows, hrows, fun _ _ => ⟨true, rfl⟩, (store.filter_satisfies_none rows).symm⟩

theorem select_error {q : Query} {e : QueryError} (h : store.select q = .error e) :
    store.Misses e := by
  unfold select at h
  cases hr : store.rows q.entity with
  | error e' => rw [hr] at h; cases h; exact store.rows_error hr
  | ok stored =>
    rw [hr] at h
    obtain ⟨row, _, hrow⟩ := keep_error h
    exact holdsOption_error store q.predicate hrow

theorem select_ordered (q : Query) (order : List OrderClause) :
    store.select (q.ordered order) = store.select q := rfl

/-! ## Sorting -/

theorem sortRows_perm {clauses : List OrderClause} {rows sorted : List Record}
    (h : sortRows clauses rows = .ok sorted) : sorted.Perm rows := by
  unfold sortRows at h
  split at h
  · cases h
  · rename_i ys hsort
    cases h
    have hperm := (stableSort_perm hsort).map Subtype.val
    rwa [List.attach_map_subtype_val] at hperm

/-- Without clauses, rows stand as they were. -/
theorem sortRows_nil (rows : List Record) : sortRows [] rows = .ok rows := by
  have hsort : stableSort (fun a b : { row // row ∈ rows } => compareRows [] a.1 b.1)
      rows.attach = some rows.attach := stableSort_of_ties (fun _ _ => rfl) _
  unfold sortRows
  rw [hsort]
  exact congrArg Except.ok rows.attach_map_subtype_val

theorem sortRows_error {clauses : List OrderClause} {rows : List Record} {e : QueryError}
    (h : sortRows clauses rows = .error e) : e = .crash .orderViolation := by
  unfold sortRows at h
  split at h
  · exact (Except.error.inj h).symm
  · cases h

/-- Up to twenty rows are sorted, in whatever order. -/
theorem exists_sortRows_of_length_le (clauses : List OrderClause) {rows : List Record}
    (h : rows.length ≤ 20) : ∃ sorted, sortRows clauses rows = .ok sorted := by
  have hattach : rows.attach.length ≤ 20 := by rwa [List.length_attach]
  obtain ⟨ys, hys⟩ := exists_stableSort_of_length_le
    (fun a b => compareRows clauses a.1 b.1) hattach
  unfold sortRows
  rw [hys]
  exact ⟨_, rfl⟩

theorem fetch_eq {q : Query} {selected : List Record} (h : store.select q = .ok selected) :
    store.fetch q = sortRows q.order selected := by
  unfold fetch
  rw [h]

/-- Fetching succeeds with a permutation of what is selected. -/
theorem fetch_inv {q : Query} {rows : List Record} (h : store.fetch q = .ok rows) :
    ∃ selected, store.select q = .ok selected ∧ rows.Perm selected := by
  unfold fetch at h
  cases hs : store.select q with
  | error e => rw [hs] at h; cases h
  | ok selected =>
    rw [hs] at h
    exact ⟨selected, rfl, sortRows_perm h⟩

/-- What ends a fetch is a selection that fails, or an order of its rows that contradicts itself. -/
theorem fetch_error {q : Query} {e : QueryError} (h : store.fetch q = .error e) :
    store.Misses e ∨ e = .crash .orderViolation := by
  unfold fetch at h
  cases hs : store.select q with
  | error e' => rw [hs] at h; cases h; exact .inl (store.select_error hs)
  | ok selected =>
    rw [hs] at h
    exact .inr (sortRows_error h)

end Store

end DataGrid
