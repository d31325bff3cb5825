import DataGrid.Proofs.SettledColumns

/-!
# Requests do not leak into each other

A grid is the same object from request to request. What a request leaves in it are
totals and switched-off flags, also when the request ends in an error half way. No
request changes what the grid settles to, and what a request gives depends on nothing
else; so no later request can tell what came before it.
-/

namespace DataGrid

/-- A request: its filter settings and what runs its queries. -/
structure Request where
  settings : Settings
  executor : Executor

namespace Grid

/-- The grid after a sequence of requests, however each of them ended. -/
def after (g : Grid) (history : List Request) : Grid :=
  history.foldl (fun g r => (g.process r.settings r.executor).1) g

section Step

variable {g : Grid} (hg : g.totalsHook = none) {source : FilterSource} (executor : Executor)

include hg

/-- A request changes nothing of what a grid settles to. -/
theorem settled_process (source : FilterSource) :
    (g.process source executor).1.settled = g.settled := by
  obtain ⟨predicate, hp⟩ := source.compose_ok g.context g.composeHook g.columns none
  have hs := settled_totalsPass hg predicate executor
  rw [process_eq hg hp]
  exact congrArg (fun cs => { g with columns := cs }) hs

/-- What a request gives depends on nothing but what the grid settles to, if its filters do. -/
theorem process_settled (hs : source.Steady) :
    (g.settled.process source executor).2 = (g.process source executor).2 ∧
      (g.settled.process source executor).1.columns.totals =
        (g.process source executor).1.columns.totals := by
  obtain ⟨predicate, hp⟩ := source.compose_ok g.context g.composeHook g.columns none
  have hps : source.compose g.composeHook g.context g.settled.columns none = .ok predicate :=
    (FilterSource.compose_settled hs g.context g.columns g.composeHook none).trans hp
  have hpass : (g.settled.totalsPass predicate executor).2 = (g.totalsPass predicate executor).2 ∧
      (g.settled.totalsPass predicate executor).1.totals =
        (g.totalsPass predicate executor).1.totals := by
    unfold totalsPass
    rw [hg, show g.settled.totalsHook = none from hg]
    exact g.columns.computeTotals_settled g.paging g.context predicate executor
  rw [process_eq hg hp, process_eq (g := g.settled) hg hps]
  refine ⟨?_, hpass.2⟩
  rw [hpass.1, order_settled]
  rfl

end Step

/-- No sequence of requests changes what a grid settles to, or gives it a totals hook. -/
theorem settled_after {g : Grid} (hg : g.totalsHook = none) (history : List Request) :
    (g.after history).settled = g.settled := by
  unfold after
  induction history generalizing g with
  | nil => rfl
  | cons r history ih =>
    have hstep := settled_process hg r.executor r.settings.source
    have hnext : (g.process r.settings r.executor).1.totalsHook = none :=
      (congrArg totalsHook hstep).trans hg
    rw [List.foldl_cons, ih hnext, hstep]

/-- A grid over a text column that asks for a sum, with a calculation of how many sums are asked
for. -/
def countingSums : Grid where
  context := .ofEntity "products"
  columns := ⟨[((Column.ofExpression "Name" .text).setFlag .sum true).withCalculation
    ⟨"sums", fun states => .int (Int64.ofNat (states.countP (·.flags.sum)))⟩]⟩

/-- An executor that refuses every query. -/
def failing : Executor :=
  ⟨fun _ => .error (.execution "closed"), fun _ => .error (.execution "closed")⟩

/-- A request without filters for a list without products. -/
def emptyRequest : Request := ⟨{}, Store.executor ⟨[("products", [])]⟩⟩

end Grid

end DataGrid
