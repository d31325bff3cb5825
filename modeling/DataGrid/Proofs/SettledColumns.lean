import DataGrid.Grid
import DataGrid.Proofs.ComposedPredicate
import DataGrid.Proofs.TotalsPass

/-!
# Settled columns

A column is settled when it has no totals and only flags that it can have. The totals
pass of a request changes nothing of what columns settle to, and depends on nothing
else: totals are dropped before any is computed, and a column's flags are restricted
before any of them is read. Predicates and orders do not read totals or flags at all.
-/

namespace DataGrid

namespace Column

/-- The column without totals and without the flags that it cannot have. -/
def settled (c : Column) : Column := (c.restrictFlags c.supportedSlots).clearTotals

@[simp] theorem settled_withValues (c : Column) (v : TotalValues) :
    (c.withValues v).settled = c.settled := rfl

theorem restrictFlags_restrictFlags (c : Column) (slots : List TotalSlot) :
    (c.restrictFlags slots).restrictFlags slots = c.restrictFlags slots :=
  congrArg (fun f => { c with flags := f }) (TotalFlags.restrict_restrict c.flags slots)

variable (executor : Executor) (filtered : Query)

/-- A pass changes nothing of what a column settles to. -/
theorem settled_computeTotals (c : Column) :
    (c.computeTotals executor filtered).1.settled = c.settled := by
  rw [computeTotals_frame, settled_withValues]
  exact congrArg clearTotals (restrictFlags_restrictFlags c c.supportedSlots)

theorem settled_computeAll (cs : List Column) :
    (computeAll executor filtered cs).1.map settled = cs.map settled := by
  induction cs with
  | nil => rfl
  | cons c cs ih =>
    have hc := settled_computeTotals executor filtered c
    simp only [computeAll]
    rcases h : c.computeTotals executor filtered with ⟨d, e | u⟩
    · rw [h] at hc
      rw [List.map_cons, List.map_cons, hc]
    · rw [h] at hc
      rw [List.map_cons, List.map_cons, hc, ih]

/-- A pass over a cleared column depends on nothing but what the column settles to. -/
theorem computeTotals_settled (c : Column) :
    c.settled.computeTotals executor filtered = c.clearTotals.computeTotals executor filtered := by
  have hs : c.settled.support? = c.support? := rfl
  have hc : c.clearTotals.support? = c.support? := rfl
  have hr := restrictFlags_restrictFlags c.clearTotals c.supportedSlots
  change c.settled.restrictFlags c.supportedSlots =
    c.clearTotals.restrictFlags c.supportedSlots at hr
  unfold computeTotals
  rw [hs, hc]
  unfold supportedSlots at hr
  cases h : c.support? with
  | none =>
    rw [h] at hr
    simp only [disableAggregates]
    rw [hr]
  | some support =>
    rw [h] at hr
    simp only
    rw [hr]

/-- Passes over settled and over cleared columns give the same, but that the columns behind a
failed one may differ in their flags. -/
theorem computeAll_settled (cs : List Column) :
    computeAll executor filtered (cs.map settled) =
        computeAll executor filtered (cs.map clearTotals) ∨
      ∃ e ds es, computeAll executor filtered (cs.map settled) = (ds, .error e) ∧
        computeAll executor filtered (cs.map clearTotals) = (es, .error e) ∧
        ds.map (fun c => (c.name, c.values)) = es.map (fun c => (c.name, c.values)) := by
  induction cs with
  | nil => exact .inl rfl
  | cons c cs ih =>
    simp only [List.map_cons, computeAll, computeTotals_settled]
    rcases c.clearTotals.computeTotals executor filtered with ⟨d, e | u⟩
    -- The error comes before the flags of the columns behind are restricted.
    · refine .inr ⟨e, _, _, rfl, rfl, ?_⟩
      rw [List.map_cons, List.map_cons, List.map_map, List.map_map]
      rfl
    · rcases ih with heq | ⟨e, ds, es, hds, hes, hvalues⟩
      · exact .inl (by rw [heq])
      · refine .inr ⟨e, d :: ds, d :: es, by rw [hds], by rw [hes], ?_⟩
        rw [List.map_cons, List.map_cons, hvalues]

end Column

namespace Columns

/-- The columns, each settled. -/
def settled (cs : Columns) : Columns := cs.map Column.settled

/-- The computed totals by column. -/
def totals (cs : Columns) : List (String × TotalValues) :=
  cs.toList.map fun c => (c.name, c.values)

theorem settled_calculateAll (cs : Columns) : cs.calculateAll.settled = cs.settled := by
  have h (ds : Columns) : ds.settled = ds.withoutResults.settled := by
    unfold settled withoutResults map
    rw [List.map_map]
    rfl
  rw [h, withoutResults_calculateAll, ← h]

theorem settled_clearTotals (cs : Columns) : cs.clearTotals.settled = cs.settled := by
  unfold settled clearTotals map
  rw [List.map_map]
  rfl

theorem clearTotals_settled (cs : Columns) : cs.settled.clearTotals = cs.settled := by
  unfold settled clearTotals map
  rw [List.map_map]
  rfl

variable (cs : Columns) (paging : Paging) (ctx : Context) (predicate : Option Predicate)
  (executor : Executor)

/-- Computing totals changes nothing of what the columns settle to. -/
theorem settled_computeTotals :
    (cs.computeTotals paging none ctx predicate executor).1.settled = cs.settled := by
  rw [← settled_clearTotals cs]
  unfold computeTotals
  simp only
  split
  · rfl
  · have h := Column.settled_computeAll executor (ctx.filtered predicate) cs.clearTotals.toList
    rcases hc : Column.computeAll executor (ctx.filtered predicate) cs.clearTotals.toList with
      ⟨ds, e | u⟩
    · rw [hc] at h
      exact congrArg Columns.mk h
    · rw [hc] at h
      simp only [settled_calculateAll]
      exact congrArg Columns.mk h

/-- Computing totals depends on nothing but what the columns settle to. -/
theorem computeTotals_settled :
    (cs.settled.computeTotals paging none ctx predicate executor).2 =
        (cs.computeTotals paging none ctx predicate executor).2 ∧
      (cs.settled.computeTotals paging none ctx predicate executor).1.totals =
        (cs.computeTotals paging none ctx predicate executor).1.totals := by
  unfold computeTotals
  rw [clearTotals_settled]
  simp only
  split
  · refine ⟨rfl, ?_⟩
    unfold totals settled clearTotals map
    rw [List.map_map, List.map_map]
    rfl
  · have h := Column.computeAll_settled executor (ctx.filtered predicate) cs.toList
    change Column.computeAll executor (ctx.filtered predicate) cs.settled.toList =
        Column.computeAll executor (ctx.filtered predicate) cs.clearTotals.toList ∨ _ at h
    rcases h with heq | ⟨e, ds, es, hds, hes, hvalues⟩
    · rw [heq]
      exact ⟨rfl, rfl⟩
    · change Column.computeAll executor (ctx.filtered predicate) cs.settled.toList = _ at hds
      change Column.computeAll executor (ctx.filtered predicate) cs.clearTotals.toList = _ at hes
      rw [hds, hes]
      exact ⟨rfl, hvalues⟩

end Columns

namespace FilterSource

/-- The source looks at nothing in a column that a request may change. -/
def Steady (s : FilterSource) : Prop :=
  ∀ c : Column, s.isInitial c.settled.toColumnState = s.isInitial c.toColumnState

variable {s : FilterSource} (hs : s.Steady) (ctx : Context) (cs : Columns)
include hs

theorem contribution_settled :
    cs.settled.toList.flatMap (s.contribution ctx) = cs.toList.flatMap (s.contribution ctx) := by
  have hcolumn : ∀ c : Column, s.contribution ctx c.settled = s.contribution ctx c := by
    intro c
    have hoptions : s.effectiveOptions c.settled.toColumnState =
        s.effectiveOptions c.toColumnState := by
      unfold effectiveOptions
      rw [hs c]
      rfl
    unfold contribution
    rw [hoptions]
    rfl
  have hmap : cs.settled.toList = cs.toList.map Column.settled := rfl
  simp only [hmap, List.flatMap_map, hcolumn]

/-- A request's predicate depends on nothing but what the columns settle to. -/
theorem compose_settled (hook : Option ComposeHook) (start : Option Predicate) :
    s.compose hook ctx cs.settled start = s.compose hook ctx cs start := by
  cases hook with
  | some hook => rfl
  | none =>
    rw [compose_eq, compose_eq, contribution_settled hs]

end FilterSource

theorem Settings.steady_source (s : Settings) : s.source.Steady := fun _ => rfl

namespace Grid

/-- The grid with its columns settled. -/
def settled (g : Grid) : Grid := { g with columns := g.columns.settled }

/-- What the totals pass of a request gives. -/
def totalsPass (g : Grid) (predicate : Option Predicate) (executor : Executor) :
    Columns × Except QueryError Unit :=
  g.columns.computeTotals g.paging g.totalsHook g.context predicate executor

theorem order_settled (g : Grid) : g.settled.order = g.order := by
  have h : g.settled.columns.sorted? = g.columns.sorted?.map Column.settled := List.find?_map
  unfold order
  rw [h]
  cases g.columns.sorted? with
  | none => rfl
  | some c => rfl

/-- Grids whose columns settle alike order their rows alike. -/
theorem order_congr {g h : Grid} (heq : g.columns.settled = h.columns.settled) :
    g.order = h.order := by
  rw [← order_settled g, ← order_settled h]
  unfold order settled
  rw [heq]

variable {g : Grid}

theorem settled_totalsPass (hg : g.totalsHook = none) (predicate : Option Predicate)
    (executor : Executor) : (g.totalsPass predicate executor).1.settled = g.columns.settled := by
  unfold totalsPass
  rw [hg]
  exact g.columns.settled_computeTotals g.paging g.context predicate executor

/-- A request gives the columns of its totals pass, also when it fails. Without an error of the
pass it answers what fetching gives, in an order that the pass does not change. -/
theorem process_eq (hg : g.totalsHook = none) {settings : FilterSource} {predicate : Option Predicate}
    (hp : settings.compose g.composeHook g.context g.columns none = .ok predicate)
    (executor : Executor) :
    g.process settings executor =
      ({ g with columns := (g.totalsPass predicate executor).1 },
        match (g.totalsPass predicate executor).2 with
        | .error e => .error (.query e)
        | .ok () =>
          match executor.fetch ((g.context.filtered predicate).ordered g.order) with
          | .error e => .error (.query e)
          | .ok rows => .ok ⟨predicate, g.order, rows⟩) := by
  have hs := settled_totalsPass hg predicate executor
  unfold process
  unfold totalsPass at *
  simp only [hp]
  cases hc : g.columns.computeTotals g.paging g.totalsHook g.context predicate executor with
  | mk cs result =>
    rw [hc] at hs
    have ho : { g with columns := cs }.order = g.order := order_congr hs
    cases result with
    | error e => rfl
    | ok u =>
      simp only [ho]
      cases executor.fetch ((g.context.filtered predicate).ordered g.order) with
      | error e => rfl
      | ok rows => rfl

/-- What a view is made of: the composed predicate, a totals pass without an error, and the rows
that were fetched under both. -/
theorem process_inv (hg : g.totalsHook = none) {settings : FilterSource} {executor : Executor}
    {view : View} (h : (g.process settings executor).2 = .ok view) :
    settings.compose g.composeHook g.context g.columns none = .ok view.predicate ∧
      (g.totalsPass view.predicate executor).2 = .ok () ∧
      executor.fetch ((g.context.filtered view.predicate).ordered g.order) = .ok view.rows := by
  obtain ⟨predicate, hp⟩ := settings.compose_ok g.context g.composeHook g.columns none
  rw [process_eq hg hp] at h
  cases ht : (g.totalsPass predicate executor).2 with
  | error e => rw [ht] at h; cases h
  | ok u =>
    rw [ht] at h
    cases hf : executor.fetch ((g.context.filtered predicate).ordered g.order) with
    | error e => rw [hf] at h; cases h
    | ok rows => rw [hf] at h; cases h; exact ⟨hp, ht, hf⟩

end Grid

end DataGrid
