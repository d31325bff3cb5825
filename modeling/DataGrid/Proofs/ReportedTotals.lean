import DataGrid.Proofs.TotalTypes
import DataGrid.Proofs.TotalsPass

/-!
# Flags report what was computed

After a successful totals pass a column has a value exactly in the slots whose flags are
on, and a flag is on exactly where it was asked for and the column can have it. What a
column can have is said here by its kind and its expression, without the table by which the
pass goes. Values of earlier passes do not survive, and nothing else of a column changes.
-/

namespace DataGrid

/-! ## What columns can have -/

/-- Whether a column can have the aggregate of a slot: numbers at a path have all four, temporal
values and texts at a path have the extremes, and counts of related rows have all four when the
expression names a count, there is a relation, and its keys are paths. -/
def ColumnState.CanHave (c : ColumnState) (slot : TotalSlot) : Prop :=
  ∃ expression, c.expression = some expression ∧
    match c.kind.family with
    | .numeric => ∃ path, Path.parse? expression = some path
    | .temporal | .text =>
      (slot = .max ∨ slot = .min) ∧ ∃ path, Path.parse? expression = some path
    | .relatedCount =>
      isCountExpression expression = true ∧ ∃ r, c.relation = some r ∧
        ∀ key ∈ r.keys, (∃ outer, Path.parse? key.1 = some outer) ∧
          ∃ inner, Path.parse? key.2 = some inner
    | .boolean | .enumeration => False

theorem mapM_isSome {α β : Type} (f : α → Option β) (as : List α) :
    (∃ bs, as.mapM f = some bs) ↔ ∀ a ∈ as, ∃ b, f a = some b := by
  induction as with
  | nil => simp
  | cons a as ih =>
    rw [List.forall_mem_cons, ← ih, List.mapM_cons]
    constructor
    · rintro ⟨bs, h⟩
      obtain ⟨b, hb, h⟩ := Option.bind_eq_some_iff.mp h
      obtain ⟨rest, hrest, -⟩ := Option.bind_eq_some_iff.mp h
      exact ⟨⟨b, hb⟩, rest, hrest⟩
    · rintro ⟨⟨b, hb⟩, rest, hrest⟩
      exact ⟨b :: rest, by rw [hb, hrest]; rfl⟩

theorem Relation.count?_isSome (r : Relation) :
    (∃ counted, r.count? = some counted) ↔
      ∀ key ∈ r.keys, (∃ outer, Path.parse? key.1 = some outer) ∧
        ∃ inner, Path.parse? key.2 = some inner := by
  unfold count?
  simp only [Option.map_eq_some_iff]
  rw [exists_comm]
  simp only [exists_and_left, exists_eq', and_true, mapM_isSome]
  refine forall_congr' fun key => imp_congr_right fun _ => ?_
  constructor
  · rintro ⟨pair, h⟩
    obtain ⟨inner, hinner, h⟩ := Option.bind_eq_some_iff.mp h
    obtain ⟨outer, houter, -⟩ := Option.bind_eq_some_iff.mp h
    exact ⟨⟨outer, houter⟩, inner, hinner⟩
  · rintro ⟨⟨outer, houter⟩, inner, hinner⟩
    exact ⟨(inner, outer), by rw [hinner, houter]; rfl⟩

/-- The slots of the table are those that the column can have. -/
theorem Column.mem_supportedSlots {c : Column} {slot : TotalSlot} :
    slot ∈ c.supportedSlots ↔ c.CanHave slot := by
  unfold supportedSlots ColumnState.support? ColumnState.CanHave
  cases he : c.expression with
  | none => simp
  | some expression =>
    simp only [Option.some.injEq, exists_eq_left', Option.bind_eq_bind, Option.bind_some]
    cases hk : c.kind.family with
    | numeric =>
      cases hp : Path.parse? expression with
      | none => simp
      | some path => cases slot <;> simp [Support.numeric]
    | temporal | text =>
      cases hp : Path.parse? expression with
      | none => simp
      | some path => cases slot <;> simp [Support.extremes]
    | relatedCount =>
      cases hc : isCountExpression expression with
      | false => simp
      | true =>
        cases hr : c.relation with
        | none => simp
        | some r =>
          simp only [true_and, Option.some.injEq, exists_eq_left', ← r.count?_isSome, if_true,
            Option.bind_some]
          cases hcount : r.count? with
          | none => simp
          | some counted => cases slot <;> simp [Support.numeric]
    | boolean | enumeration => simp

/-! ## What a pass leaves -/

/-- What a totals pass makes of a column. -/
structure Column.Reported (before after : Column) : Prop where
  flag_iff : ∀ slot, after.flags.get slot = true ↔
    before.flags.get slot = true ∧ before.CanHave slot
  value_iff : ∀ slot, (∃ total, after.values.get slot = some total) ↔ after.flags.get slot = true
  value_suits : ∀ slot total, after.values.get slot = some total →
    total.suits before.kind.family = true
  calculation_flag : after.flags.calculation = before.flags.calculation
  unchanged : after = { before with flags := after.flags, values := after.values }

namespace Column

section Pass

variable {store : Store} {q : Query} {c d : Column}
  (h : c.clearTotals.computeTotals store.executor q = (d, .ok ()))

include h

theorem eq_of_computeTotals : d = (c.restrictFlags c.supportedSlots).withValues d.values := by
  have hf := computeTotals_frame store.executor q c.clearTotals
  rw [h] at hf
  exact hf

theorem flag_iff_of_computeTotals (slot : TotalSlot) :
    d.flags.get slot = true ↔ c.flags.get slot = true ∧ c.CanHave slot := by
  have hflags := congrArg (fun d : Column => d.flags.get slot) (eq_of_computeTotals h)
  change d.flags.get slot = (c.flags.restrict c.supportedSlots).get slot at hflags
  rw [hflags, TotalFlags.get_restrict, Bool.and_eq_true, List.contains_iff_mem,
    mem_supportedSlots]

/-- The column starts without values, and no disabled slot is computed. -/
theorem value_eq_none_of_disabled {slot : TotalSlot} (hd : d.flags.get slot = false) :
    d.values.get slot = none := by
  have hstart : c.clearTotals.values.get slot = none := by cases slot <;> rfl
  have hflags := congrArg (fun d : Column => d.flags.get slot) (eq_of_computeTotals h)
  have hoff : (c.clearTotals.flags.restrict c.clearTotals.supportedSlots).get slot = false :=
    hflags.symm.trans hd
  have hkeep := computeTotals_get_of_disabled store.executor q hoff
  rw [h] at hkeep
  exact hkeep.trans hstart

theorem value_of_enabled {slot : TotalSlot} (hd : d.flags.get slot = true) :
    ∃ total, d.values.get slot = some total ∧ total.suits c.kind.family = true := by
  obtain ⟨support, aggregate, v, hs, hm, hv, hget⟩ :=
    computeTotals_get_of_ok store.executor q h hd
  have hsupports := ColumnState.supports_of_support? hs
  exact ⟨Total.ofResult v, hget, Total.ofResult_suits (hsupports.scalar_suits store hm hv)⟩

theorem reported_of_computeTotals : c.Reported d where
  flag_iff := flag_iff_of_computeTotals h
  value_iff slot := by
    constructor
    · rintro ⟨total, ht⟩
      by_contra hoff
      rw [value_eq_none_of_disabled h (Bool.eq_false_iff.mpr hoff)] at ht
      cases ht
    · intro hon
      obtain ⟨total, ht, -⟩ := value_of_enabled h hon
      exact ⟨total, ht⟩
  value_suits slot total ht := by
    cases hd : d.flags.get slot with
    | false =>
      rw [value_eq_none_of_disabled h hd] at ht
      cases ht
    | true =>
      obtain ⟨other, ho, hsuits⟩ := value_of_enabled h hd
      rw [ho] at ht
      cases ht
      exact hsuits
  calculation_flag := by
    rw [eq_of_computeTotals h]
    rfl
  unchanged := by
    have heq := eq_of_computeTotals h
    have hflags := congrArg (fun d : Column => d.flags) heq
    exact heq.trans (congrArg (fun f => { c with flags := f, values := d.values }) hflags.symm)

end Pass

/-- A report does not depend on the results of calculations. -/
theorem reported_withoutResults {c d : Column} : c.Reported d.withoutResults ↔ c.Reported d := by
  have hget (slot : TotalSlot) : d.withoutResults.values.get slot = d.values.get slot := by
    cases slot <;> rfl
  constructor
  · rintro ⟨hflag, hvalue, hsuits, hcalculation, hsame⟩
    simp only [hget] at hvalue hsuits
    exact ⟨hflag, hvalue, hsuits, hcalculation,
      congrArg (fun e : Column => e.withValues d.values) hsame⟩
  · rintro ⟨hflag, hvalue, hsuits, hcalculation, hsame⟩
    simp only [← hget] at hvalue hsuits
    exact ⟨hflag, hvalue, hsuits, hcalculation, congrArg withoutResults hsame⟩

end Column

namespace Columns

/-- **Flags report what was computed.** After a successful totals pass each column, in its place,
has exactly the flags that it was asked for and can have, values exactly where its flags are on,
each absent or of the type of its kind, and is otherwise as it was. -/
theorem computeTotals_reported {cs : Columns} {paging : Paging} {ctx : Context}
    {predicate : Option Predicate} {store : Store} (hp : paging.skipsTotals = false)
    (h : (cs.computeTotals paging none ctx predicate store.executor).2 = .ok ()) :
    List.Forall₂ Column.Reported cs.toList
      (cs.computeTotals paging none ctx predicate store.executor).1.toList := by
  unfold computeTotals at h ⊢
  simp only [hp, Bool.false_eq_true, if_false] at h ⊢
  rcases ha : Column.computeAll store.executor (ctx.filtered predicate) cs.clearTotals.toList with
    ⟨ds, e | u⟩
  · rw [ha] at h
    cases h
  · have heach := (Column.computeAll_eq_ok store.executor _).mp ha
    change List.Forall₂ _ (cs.toList.map Column.clearTotals) ds at heach
    rw [List.forall₂_map_left_iff] at heach
    have hpass : List.Forall₂ Column.Reported cs.toList ds :=
      heach.imp fun _ _ hc => Column.reported_of_computeTotals hc
    -- Calculations change results only, and no report depends on these.
    have hresults : (Columns.calculateAll ⟨ds⟩).toList.map Column.withoutResults =
        ds.map Column.withoutResults :=
      congrArg Columns.toList (withoutResults_calculateAll ⟨ds⟩)
    have hcleared : List.Forall₂ Column.Reported cs.toList (ds.map Column.withoutResults) := by
      rw [List.forall₂_map_right_iff]
      exact hpass.imp fun _ _ hc => Column.reported_withoutResults.mpr hc
    rw [← hresults, List.forall₂_map_right_iff] at hcleared
    exact hcleared.imp fun _ _ hc => Column.reported_withoutResults.mp hc

/-- Columns that ask for more than they can have, one of them with the maximum of an earlier
pass. -/
def greedyColumns : Columns :=
  let asking (c : Column) : Column := ((c.setFlag .sum true).setFlag .max true).setFlag .min true
  ⟨[(asking (.ofExpression "Stock" .int)).setFlag .max false |>.setValue .max (.text "old"),
    (asking (.ofExpression "Name" .text)).withCalculation ⟨"columns", fun cs => .int cs.length.toInt64⟩,
    asking (.ofExpression "Sold" .bool),
    asking (.ofExpression "Orders" .relatedCount)]⟩

/-- Rows with values of all sorts. -/
def mixedStore : Store := ⟨[("products",
  [[("Name", .string "lamp"), ("Stock", .number (.integer 5))],
    [("Name", .number (.integer 7)), ("Stock", .string "many")]])]⟩

/-- The number column keeps two of its flags, the text column its extremes, the others none. -/
theorem computeTotals_reported_greedy :
    Paging.skipsTotals {} = false ∧
      (greedyColumns.computeTotals {} none (.ofEntity "products") none mixedStore.executor).2 =
        .ok () ∧
      (greedyColumns.computeTotals {} none (.ofEntity "products") none
          mixedStore.executor).1.toList.map (fun c => TotalSlot.all.filter c.flags.get) =
        [[.sum, .min], [.max, .min], [], []] ∧
      List.Forall₂ Column.Reported greedyColumns.toList
        (greedyColumns.computeTotals {} none (.ofEntity "products") none
          mixedStore.executor).1.toList := by
  have hpass : (greedyColumns.computeTotals {} none (.ofEntity "products") none
      mixedStore.executor).2 = .ok () := rfl
  exact ⟨rfl, hpass, by decide, computeTotals_reported rfl hpass⟩

end Columns

end DataGrid
