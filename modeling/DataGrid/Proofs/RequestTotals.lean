import DataGrid.Proofs.RowTotals
import DataGrid.Proofs.SettledColumns

/-!
# Totals are totals of the visible rows

The rows of a view and its totals come from separate queries: one fetches rows, the
others aggregate a projection each. All of them are restrictions of the base query by
the predicate of the request, so all of them see the same stored rows, and the totals
of a view are those of the rows that it shows.
-/

namespace DataGrid

/-! ## Totals of selected rows -/

/-- The total that a column holds in a slot is the total of the rows. -/
def Column.HoldsTotal (c : Column) (store : Store) (slot : TotalSlot) (rows : List Record) : Prop :=
  ∃ value total, store.totalled? c.toColumnState = some value ∧
    slot.totalOf value rows = .ok total ∧ c.values.get slot = some total

/-- A pass does not change what totals take from a row. -/
theorem Column.totalled?_computeTotals (store : Store) (executor : Executor) (q : Query)
    (c : Column) : store.totalled? (c.computeTotals executor q).1.toColumnState =
      store.totalled? c.toColumnState := by
  rw [computeTotals_frame]
  rfl

section Selected

variable {store : Store} {slot : TotalSlot} {rows : List Record}

/-- Whether a column holds a total does not depend on calculations. -/
theorem Column.holdsTotal_withoutResults {c : Column} :
    c.withoutResults.HoldsTotal store slot rows ↔ c.HoldsTotal store slot rows := by
  cases slot <;> exact Iff.rfl

/-- After a successful pass a column holds the totals of the selected rows in the slots that are
still enabled. -/
theorem Column.holdsTotal_of_computeTotals {b c : Column} {q : Query}
    (hs : store.select q = .ok rows) (h : b.computeTotals store.executor q = (c, .ok ()))
    (he : c.flags.get slot = true) : c.HoldsTotal store slot rows := by
  obtain ⟨support, aggregate, v, hsupport, hm, hv, hget⟩ :=
    computeTotals_get_of_ok store.executor q h he
  obtain ⟨selected, value, hselected, ht, htotal⟩ :=
    (ColumnState.supports_of_support? hsupport).scalar_eq_totalOf store hm hv
  rw [hs] at hselected
  cases hselected
  have hsame := totalled?_computeTotals store store.executor q b
  rw [h] at hsame
  exact ⟨value, Total.ofResult v, hsame.trans ht, htotal, hget⟩

/-- The same of all columns, with the calculations behind the pass. -/
theorem Columns.holdsTotal_of_computeTotals {cs : Columns} {paging : Paging} {ctx : Context}
    {predicate : Option Predicate} (hs : store.select (ctx.filtered predicate) = .ok rows)
    (hp : paging.skipsTotals = false)
    (h : (cs.computeTotals paging none ctx predicate store.executor).2 = .ok ()) {c : Column}
    (hc : c ∈ (cs.computeTotals paging none ctx predicate store.executor).1.toList)
    (he : c.flags.get slot = true) : c.HoldsTotal store slot rows := by
  unfold computeTotals at h hc
  simp only [hp] at h hc
  rcases ha : Column.computeAll store.executor (ctx.filtered predicate) cs.clearTotals.toList with
    ⟨ds, e | u⟩
  · simp [ha] at h
  · simp only [ha] at hc
    have hm : c.withoutResults ∈ (Columns.calculateAll ⟨ds⟩).withoutResults.toList :=
      List.mem_map_of_mem hc
    rw [withoutResults_calculateAll] at hm
    obtain ⟨d, hd, heq⟩ := List.mem_map.mp hm
    obtain ⟨b, hb⟩ := Column.exists_of_mem_computeAll store.executor _ ha hd
    have hflag : d.flags.get slot = true :=
      (congrArg (fun c : Column => c.flags.get slot) heq).trans he
    have htotals := Column.holdsTotal_of_computeTotals hs hb hflag
    rw [← Column.holdsTotal_withoutResults, heq] at htotals
    exact Column.holdsTotal_withoutResults.mp htotals

end Selected

/-! ## Visible rows -/

namespace Store

variable (store : Store)

/-- Whether a row is visible in a view: it satisfies the base query and the view's predicate. -/
def visible (ctx : Context) (view : View) (row : Record) : Bool :=
  store.satisfies ctx.base.predicate row && store.satisfies view.predicate row

/-- A restriction of the base query selects the rows that satisfy both predicates. -/
theorem select_filtered {ctx : Context} {view : View} {rows : List Record}
    (h : store.select (ctx.filtered view.predicate) = .ok rows) :
    ∃ stored, store.rows ctx.entity = .ok stored ∧
      rows = stored.filter (store.visible ctx view) := by
  obtain ⟨stored, hs, -, hrows⟩ := store.select_eq_ok.mp h
  refine ⟨stored, hs, hrows.trans (List.filter_congr fun row _ => ?_)⟩
  exact store.satisfies_andOption ctx.base.predicate view.predicate row

end Store

namespace Grid

/-- **Totals are totals of the visible rows.** The rows of a view are the stored rows that are
visible in it, up to order, and what is still enabled of a column afterwards is the total of
these rows. -/
theorem process_totals {g : Grid} (hg : g.totalsHook = none)
    (hp : g.paging.skipsTotals = false) {settings : Settings} {store : Store} {view : View}
    (h : (g.process settings store.executor).2 = .ok view) :
    ∃ stored, store.rows g.context.entity = .ok stored ∧
      view.rows.Perm (stored.filter (store.visible g.context view)) ∧
      ∀ c ∈ (g.process settings store.executor).1.columns.toList, ∀ slot,
        c.flags.get slot = true →
          c.HoldsTotal store slot (stored.filter (store.visible g.context view)) := by
  obtain ⟨hcompose, hpass, hfetch⟩ := process_inv hg h
  obtain ⟨selected, hselect, hperm⟩ := store.fetch_inv hfetch
  rw [store.select_ordered] at hselect
  obtain ⟨stored, hstored, rfl⟩ := store.select_filtered hselect
  refine ⟨stored, hstored, hperm, fun c hc slot he => ?_⟩
  rw [process_eq hg hcompose] at hc
  unfold totalsPass at hpass hc
  rw [hg] at hpass hc
  exact Columns.holdsTotal_of_computeTotals hselect hp hpass hc he

/-- A list of products that sums their stock and takes the most orders of one of them. -/
def stockList : Grid where
  context := .ofEntity "products"
  columns := ⟨[
    ((Column.ofExpression "Stock" .int).enableFilter true).setFlag .sum true,
    ((Column.ofExpression "Orders.count" .relatedCount).withRelation
      ⟨"orders", [("Id", "Product")]⟩).setFlag .max true]⟩

/-- Two products, one of them ordered. -/
def shop : Store := ⟨[
  ("products", [[("Id", .number (.integer 1)), ("Stock", .number (.integer 5))],
    [("Id", .number (.integer 2)), ("Stock", .number (.integer 3))]]),
  ("orders", [[("Product", .number (.integer 1))]])]⟩

/-- Products with more than four in stock. -/
def inStock : Settings := ⟨[⟨"Stock", .greaterThan, "4"⟩], []⟩

/-- The list with a filter is such a view, and both of its totals are enabled. -/
theorem stockList_totals :
    stockList.totalsHook = none ∧ stockList.paging.skipsTotals = false ∧
      (stockList.process inStock shop.executor).1.columns.toList.map
        (fun c => (c.flags.sum, c.flags.max)) = [(true, false), (false, true)] ∧
      ∃ view stored, (stockList.process inStock shop.executor).2 = .ok view ∧
        shop.rows "products" = .ok stored ∧
        view.rows.Perm (stored.filter (shop.visible stockList.context view)) ∧
        ∀ c ∈ (stockList.process inStock shop.executor).1.columns.toList, ∀ slot,
          c.flags.get slot = true →
            c.HoldsTotal shop slot (stored.filter (shop.visible stockList.context view)) := by
  obtain ⟨view, hview⟩ : ∃ view, (stockList.process inStock shop.executor).2 = .ok view :=
    ⟨_, rfl⟩
  obtain ⟨stored, htotals⟩ := process_totals rfl rfl hview
  exact ⟨rfl, rfl, by decide, view, stored, hview, htotals⟩

end Grid

end DataGrid
