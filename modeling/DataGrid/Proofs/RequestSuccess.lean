import DataGrid.Proofs.RowTotals
import DataGrid.Proofs.SettledColumns
import DataGrid.Proofs.SortedRows

/-!
# No request is at fault

Whatever a request asks for, its filters and its totals succeed when the base query does
and the related entities are there. The predicates of filter options have an answer on
every row, for all they read besides the row are the rows of the base query; and sums
meet numbers only. So a request comes to sort its rows, and that succeeds for a few rows,
and where the fields to sort by are of one type each. Sorting many rows by fields of
several types may end the program.
-/

namespace DataGrid

section Answers

variable {store : Store} {ctx : Context} {stored : List Record}
  (hstored : store.rows ctx.entity = .ok stored)
  (hbase : ∀ row ∈ stored, ∃ b, store.holdsOption ctx.base.predicate row = .ok b)

include hstored hbase

/-- A predicate of a filter option has an answer on every row. -/
theorem Strategy.Built.holds_ok {p : Predicate} (hp : Built ctx p) (row : Record) :
    ∃ b, store.holds p row = .ok b := by
  cases hp with
  | compare path kind op value =>
    simp only [Store.holds]
    exact ⟨_, rfl⟩
  | matched path op pattern =>
    simp only [Store.holds]
    split
    · exact ⟨_, rfl⟩
    · exact ⟨false, rfl⟩
  | duplicates path duplicated =>
    -- The rows counted for a duplicate check are those of the base query itself.
    obtain ⟨n, hn⟩ := store.countRows_ok hstored hbase [(path, path)] row
    change store.countRows (ctx.countSameValue path) row = .ok n at hn
    simp only [Strategy.duplicatePredicate, Store.holds, hn]
    exact ⟨_, rfl⟩

/-- A conjunction of predicates of filter options leaves the base query one that succeeds, and
selects some of its rows. -/
theorem Context.select_filtered_ok {ps : List Predicate} (hps : ∀ p ∈ ps, Strategy.Built ctx p) :
    ∃ rows, store.select (ctx.filtered (Predicate.ofList? ps)) = .ok rows ∧
      rows.Sublist (stored.filter (store.satisfies ctx.base.predicate)) := by
  refine ⟨_, store.select_eq_ok.mpr ⟨stored, hstored, fun row hrow => ?_, rfl⟩, ?_⟩
  · change ∃ b, store.holdsOption (Predicate.andOption _ _) row = .ok b
    rw [Store.holdsOption_andOption]
    obtain ⟨b, hb⟩ := hbase row hrow
    rw [hb]
    cases b with
    | false => exact ⟨false, rfl⟩
    | true =>
      exact store.holdsOption_ofList?_ok fun p hp => (hps p hp).holds_ok hstored hbase row
  · refine List.monotone_filter_right stored fun row hrow => ?_
    change store.satisfies (Predicate.andOption _ _) row = true at hrow
    rw [store.satisfies_andOption, Bool.and_eq_true] at hrow
    exact hrow.1

end Answers

namespace Columns

/-- What ends a totals pass is the executor's answer for what some column can have. -/
theorem computeTotals_error {cs : Columns} {paging : Paging} {ctx : Context}
    {predicate : Option Predicate} {executor : Executor} {e : QueryError}
    (h : (cs.computeTotals paging none ctx predicate executor).2 = .error e) :
    ∃ c ∈ cs.toList, ∃ support, c.support? = some support ∧ ∃ s ∈ support.slots,
      executor.scalar ⟨ctx.filtered predicate, support.projection, s.2⟩ = .error e := by
  unfold computeTotals at h
  simp only at h
  split at h
  · cases h
  · rcases ha : Column.computeAll executor (ctx.filtered predicate) cs.clearTotals.toList with
      ⟨ds, e' | u⟩
    · simp only [ha] at h
      cases h
      obtain ⟨d, hd, he⟩ := Column.computeAll_error executor _ (congrArg Prod.snd ha)
      obtain ⟨c, hc, rfl⟩ := List.mem_map.mp hd
      obtain ⟨support, hs, hslot⟩ := Column.computeTotals_error executor _ he
      exact ⟨c, hc, support, hs, hslot⟩
    · simp only [ha] at h
      cases h

end Columns

namespace Grid

variable {g : Grid} {store : Store} {e : QueryError}

/-- What ends the totals pass of a request is a row selection that fails, or a row of which some
column cannot be computed. -/
theorem totalsPass_error (hg : g.totalsHook = none) {predicate : Option Predicate}
    (h : (g.totalsPass predicate store.executor).2 = .error e) :
    store.select (g.context.filtered predicate) = .error e ∨
      ∃ c ∈ g.columns.toList, ∃ support, c.Supports support ∧
        ∃ row, store.project support.projection row = .error e := by
  unfold totalsPass at h
  rw [hg] at h
  obtain ⟨c, hc, support, hs, s, hm, he⟩ := Columns.computeTotals_error h
  have hsupports := ColumnState.supports_of_support? hs
  rcases hsupports.scalar_error store hm he with hselect | hrow
  · exact .inl hselect
  · exact .inr ⟨c, hc, support, hsupports, hrow⟩

/-- What a request can end in, other than a view, is an entity that is not there, or an order of its
rows that contradicts itself. -/
theorem misses_of_process_error (hg : g.totalsHook = none) {settings : FilterSource}
    {e : GridError} (h : (g.process settings store.executor).2 = .error e) :
    ∃ cause, e = .query cause ∧ (store.Misses cause ∨ cause = .crash .orderViolation) := by
  obtain ⟨predicate, hp⟩ := settings.compose_ok g.context g.composeHook g.columns none
  rw [process_eq hg hp] at h
  cases ht : (g.totalsPass predicate store.executor).2 with
  | error cause =>
    rw [ht] at h
    cases h
    refine ⟨cause, rfl, .inl ?_⟩
    rcases totalsPass_error hg ht with hselect | ⟨c, -, support, -, row, hrow⟩
    · exact store.select_error hselect
    · exact store.project_error hrow
  | ok u =>
    simp only [ht] at h
    cases hf : store.executor.fetch ((g.context.filtered predicate).ordered g.order) with
    | error cause =>
      rw [hf] at h
      cases h
      exact ⟨cause, rfl, store.fetch_error hf⟩
    | ok rows =>
      rw [hf] at h
      cases h

/-- Where the base query succeeds and the entities that columns count are there, a request without
hooks comes to sort some of the base query's rows. -/
theorem process_sorts (hc : g.composeHook = none) (hg : g.totalsHook = none)
    (settings : FilterSource) {base : List Record} (hb : store.select g.context.base = .ok base)
    (hr : ∀ c ∈ g.columns.toList, c.kind = .relatedCount → ∀ r, c.relation = some r →
      ∃ rows, store.rows r.entity = .ok rows) :
    ∃ predicate selected, selected.Sublist base ∧ (g.process settings store.executor).2 =
      match Store.sortRows g.order selected with
      | .error e => .error (.query e)
      | .ok rows => .ok (⟨predicate, g.order, rows⟩ : View) := by
  obtain ⟨stored, hstored, hbase, rfl⟩ := store.select_eq_ok.mp hb
  have hp := settings.compose_eq g.context g.columns none
  rw [← hc, Predicate.andOption_none_left] at hp
  have hbuilt : ∀ p ∈ g.columns.toList.flatMap (settings.contribution g.context),
      Strategy.Built g.context p := by
    intro p hmem
    obtain ⟨c, -, hm⟩ := List.mem_flatMap.mp hmem
    exact settings.built_of_mem_contribution g.context hm
  obtain ⟨selected, hselected, hsublist⟩ := Context.select_filtered_ok hstored hbase hbuilt
  refine ⟨Predicate.ofList? (g.columns.toList.flatMap (settings.contribution g.context)),
    selected, hsublist, ?_⟩
  rw [process_eq hg hp]
  cases ht : (g.totalsPass _ store.executor).2 with
  | error e =>
    rcases totalsPass_error hg ht with hselect | ⟨c, hm, support, hs, row, hrow⟩
    · rw [hselected] at hselect
      cases hselect
    · obtain ⟨v, hv⟩ := hs.project_ok store (hr c hm) row
      rw [hrow] at hv
      cases hv
  | ok u =>
    have hfetch := store.fetch_eq ((store.select_ordered _ g.order).trans hselected)
    change store.executor.fetch _ = _ at hfetch
    simp only [hfetch]
    rfl

/-- **User input never surfaces as an error.** Let the base query succeed and let the entities that
columns count be there. Then a request without hooks succeeds or the program ends in sorting its
rows; and it succeeds if the base query gives no more than twenty rows, or if each field that the
grid sorts by is of one type in them, whatever they hold otherwise. The one error that a request
hands on, with or without the above, is an entity that is not there. -/
theorem process_faultless (hc : g.composeHook = none) (hg : g.totalsHook = none)
    (settings : FilterSource) :
    (∀ base, store.fetch g.context.base = .ok base →
      (∀ c ∈ g.columns.toList, c.kind = .relatedCount → ∀ r, c.relation = some r →
        ∃ rows, store.rows r.entity = .ok rows) →
      ((∃ view, (g.process settings store.executor).2 = .ok view) ∨
        (g.process settings store.executor).2 = .error (.query (.crash .orderViolation))) ∧
      (base.length ≤ 20 ∨ (∀ clause ∈ g.order, OneTyped base clause.path) →
        ∃ view, (g.process settings store.executor).2 = .ok view)) ∧
    ∀ e, (g.process settings store.executor).2 = .error e →
      ∃ cause, e = .query cause ∧ (store.Misses cause ∨ cause = .crash .orderViolation) := by
  refine ⟨fun base hfetch hr => ?_, fun _ => misses_of_process_error hg⟩
  obtain ⟨selected, hselect, hperm⟩ := store.fetch_inv hfetch
  obtain ⟨predicate, shown, hsublist, hprocess⟩ := process_sorts hc hg settings hselect hr
  rw [hprocess]
  constructor
  · cases hsort : Store.sortRows g.order shown with
    | error e => exact .inr (by rw [Store.sortRows_error hsort])
    | ok rows => exact .inl ⟨_, rfl⟩
  · intro horder
    have hsorts : ∃ rows, Store.sortRows g.order shown = .ok rows := by
      rcases horder with hlength | htyped
      · refine Store.exists_sortRows_of_length_le g.order ?_
        exact hsublist.length_le.trans (hperm.length_eq ▸ hlength)
      · have hshown : ∀ clause ∈ g.order, OneTyped shown clause.path := fun clause hclause =>
          (htyped clause hclause).mono fun row hrow =>
            hperm.mem_iff.2 (hsublist.subset hrow)
        obtain ⟨rows, hrows, -⟩ := Store.exists_sortRows hshown
        exact ⟨rows, hrows⟩
    obtain ⟨rows, hrows⟩ := hsorts
    rw [hrows]
    exact ⟨_, rfl⟩

/-- A list that asks for sums of texts and of stock, and counts orders. -/
def oddList : Grid where
  context := .ofEntity "products"
  columns := ⟨[
    ((Column.ofExpression "Name" .text).enableFilter true).setFlag .sum true,
    ((Column.ofExpression "Stock" .int).enableFilter true).setFlag .sum true,
    ((Column.ofExpression "Orders.count" .relatedCount).withRelation
      ⟨"orders", [("Id", "Product")]⟩).setFlag .average true]⟩

/-- Rows with values of all sorts in one field. -/
def oddShop : Store := ⟨[
  ("products", [[("Id", .number (.integer 1)), ("Stock", .string "many")],
    [("Name", .bool true), ("Stock", .array [])]]),
  ("orders", [])]⟩

/-- Options that make no sense, the last for a column that is not there. -/
def oddSettings : Settings :=
  ⟨[⟨"Stock", .contains, "a few"⟩, ⟨"Name", .lessThan, ""⟩, ⟨"Price", .equals, "1"⟩], []⟩

/-- Such a request succeeds. -/
theorem process_odd :
    (∃ rows, oddShop.fetch oddList.context.base = .ok rows) ∧
      ∃ view, (oddList.process oddSettings oddShop.executor).2 = .ok view := by
  have hb : oddShop.fetch oddList.context.base = .ok _ :=
    (oddShop.fetch_eq rfl).trans (Store.sortRows_nil _)
  refine ⟨⟨_, hb⟩, ((process_faultless rfl rfl oddSettings).1 _ hb ?_).2 (.inl (by decide))⟩
  intro c hc _ r hr
  simp only [oddList, List.mem_cons, List.not_mem_nil, or_false] at hc
  rcases hc with rfl | rfl | rfl
  · cases hr
  · cases hr
  · cases hr
    exact ⟨[], rfl⟩

/-- A list sorted by a column. -/
def codeList : Grid where
  context := .ofEntity "products"
  columns := ⟨[{ (Column.ofExpression "Code" .text).enableSort true .threeState with
    direction := some .ascending }]⟩

/-- Rows with texts among numbers in one field. -/
def mixedShop : Store :=
  let number (n : Int) : Json := .number (.integer n)
  let codes : List Json := [number 2, .string "a", .string "b", .string "a", .string "b",
    .string "a", number 4, .string "a", number 0, .string "a", number 3, .string "a", number 7,
    number 5, number 7, number 6, .string "c", .string "c", number 8, .string "b", number 8]
  ⟨[("products", codes.map fun code => [("Code", code)])]⟩

/-- Texts and numbers tie, and sorting comes upon it: the program ends in a request that asks for
nothing. -/
theorem not_process_isOk : ¬ ∀ (g : Grid) (store : Store) (settings : Settings),
    g.composeHook = none → g.totalsHook = none →
    (∃ rows, store.fetch g.context.base = .ok rows) →
    (∀ c ∈ g.columns.toList, c.kind = .relatedCount → ∀ r, c.relation = some r →
      ∃ rows, store.rows r.entity = .ok rows) →
    ∃ view, (g.process settings store.executor).2 = .ok view := by
  intro hclaim
  have hb : mixedShop.fetch codeList.context.base = .ok _ :=
    (mixedShop.fetch_eq rfl).trans (Store.sortRows_nil _)
  have hr : ∀ c ∈ codeList.columns.toList, c.kind = .relatedCount → ∀ r, c.relation = some r →
      ∃ rows, mixedShop.rows r.entity = .ok rows := by
    intro c hc hkind
    obtain rfl := List.mem_singleton.1 hc
    cases hkind
  obtain ⟨view, hview⟩ := hclaim codeList mixedShop {} rfl rfl ⟨_, hb⟩ hr
  have hcrash : (codeList.process (Settings.source {}) mixedShop.executor).2.toBool = false := by
    decide +kernel
  rw [hview] at hcrash
  cases hcrash

end Grid

end DataGrid
