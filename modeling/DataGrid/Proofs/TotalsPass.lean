import DataGrid.Proofs.ColumnSupport
import Mathlib.Data.List.Forall2

/-!
# What the totals pass does to columns

A pass changes two things of a column and no other: its values, and those flags
that the column cannot have. A pass over columns succeeds when it does on each of
them, and its error is the executor's answer for some enabled slot. Calculations
change nothing but calculation results.
-/

namespace DataGrid

/-! ## Flags and values by slot -/

namespace TotalFlags

@[simp] theorem get_restrict (f : TotalFlags) (slots : List TotalSlot) (slot : TotalSlot) :
    (f.restrict slots).get slot = (f.get slot && slots.contains slot) := by
  cases slot <;> rfl

@[simp] theorem restrict_restrict (f : TotalFlags) (slots : List TotalSlot) :
    (f.restrict slots).restrict slots = f.restrict slots := by
  simp only [restrict, Bool.and_assoc, Bool.and_self]

end TotalFlags

namespace TotalValues

@[simp] theorem get_set_self (v : TotalValues) (slot : TotalSlot) (total : Total) :
    (v.set slot total).get slot = some total := by
  cases slot <;> rfl

theorem get_set_of_ne (v : TotalValues) {slot other : TotalSlot} (total : Total)
    (h : other ≠ slot) : (v.set slot total).get other = v.get other := by
  cases slot <;> cases other <;> first | rfl | exact absurd rfl h

end TotalValues

/-! ## One column -/

namespace Column

/-- The column with other values. -/
def withValues (c : Column) (v : TotalValues) : Column := { c with values := v }

/-- The column without the results of its calculations. -/
def withoutResults (c : Column) : Column :=
  c.withValues { c.values with calculations := [] }

/-- The slots that a column can have. -/
def supportedSlots (c : Column) : List TotalSlot :=
  match c.support? with
  | some support => support.slots.map (·.1)
  | none => []

section Slots

variable (executor : Executor) (filtered : Query) (p : Projection)

/-- Computing slots changes nothing of a column but its values. -/
theorem computeSlots_frame (slots : List (TotalSlot × Aggregate)) (c : Column) :
    (computeSlots executor filtered p slots c).1 =
      c.withValues (computeSlots executor filtered p slots c).1.values := by
  induction slots generalizing c with
  | nil => rfl
  | cons s rest ih =>
    obtain ⟨slot, aggregate⟩ := s
    simp only [computeSlots]
    split
    · cases executor.scalar ⟨filtered, p, aggregate⟩ with
      | error e => rfl
      | ok v => exact ih (c.setValue slot (Total.ofResult v))
    · exact ih c

/-- A value stays as it is unless its slot is computed. -/
theorem computeSlots_get_of_not_mem {slots : List (TotalSlot × Aggregate)} {slot : TotalSlot}
    (h : slot ∉ slots.map (·.1)) (c : Column) :
    (computeSlots executor filtered p slots c).1.values.get slot = c.values.get slot := by
  induction slots generalizing c with
  | nil => rfl
  | cons s rest ih =>
    obtain ⟨other, aggregate⟩ := s
    rw [List.map_cons, List.mem_cons, not_or] at h
    simp only [computeSlots]
    split
    · cases executor.scalar ⟨filtered, p, aggregate⟩ with
      | error e => rfl
      | ok v =>
        have hset : (c.setValue other (Total.ofResult v)).values.get slot = c.values.get slot :=
          TotalValues.get_set_of_ne c.values _ h.1
        exact (ih h.2 (c.setValue other (Total.ofResult v))).trans hset
    · exact ih h.2 c

theorem computeSlots_get_of_disabled {slots : List (TotalSlot × Aggregate)} {slot : TotalSlot}
    {c : Column} (h : c.flags.get slot = false) :
    (computeSlots executor filtered p slots c).1.values.get slot = c.values.get slot := by
  induction slots generalizing c with
  | nil => rfl
  | cons s rest ih =>
    obtain ⟨other, aggregate⟩ := s
    simp only [computeSlots]
    split
    · rename_i ho
      have hne : slot ≠ other := by
        rintro rfl
        rw [h] at ho
        cases ho
      cases executor.scalar ⟨filtered, p, aggregate⟩ with
      | error e => rfl
      | ok v =>
        have hset : (c.setValue other (Total.ofResult v)).values.get slot = c.values.get slot :=
          TotalValues.get_set_of_ne c.values _ hne
        exact (ih (c := c.setValue other (Total.ofResult v)) h).trans hset
    · exact ih h

/-- Once slots are computed, each enabled one of them holds what the executor answers for it. -/
theorem computeSlots_get_of_ok {slots : List (TotalSlot × Aggregate)}
    (hd : (slots.map (·.1)).Nodup) {c : Column}
    (h : (computeSlots executor filtered p slots c).2 = .ok ()) {slot : TotalSlot}
    {aggregate : Aggregate} (hm : (slot, aggregate) ∈ slots) (he : c.flags.get slot = true) :
    ∃ v, executor.scalar ⟨filtered, p, aggregate⟩ = .ok v ∧
      (computeSlots executor filtered p slots c).1.values.get slot = some (Total.ofResult v) := by
  induction slots generalizing c with
  | nil => cases hm
  | cons s rest ih =>
    obtain ⟨other, a⟩ := s
    rw [List.map_cons, List.nodup_cons] at hd
    simp only [computeSlots] at h ⊢
    rcases List.mem_cons.mp hm with heq | hrest
    · cases heq
      rw [if_pos he] at h ⊢
      cases hv : executor.scalar ⟨filtered, p, aggregate⟩ with
      | error e => rw [hv] at h; cases h
      | ok v =>
        refine ⟨v, rfl, ?_⟩
        simp only
        -- The slots are distinct, so the rest of the pass leaves this one alone.
        rw [computeSlots_get_of_not_mem executor filtered p hd.1]
        exact TotalValues.get_set_self c.values slot _
    · split at h
      · rename_i ho
        rw [if_pos ho]
        cases hv : executor.scalar ⟨filtered, p, a⟩ with
        | error e => rw [hv] at h; cases h
        | ok v => rw [hv] at h; exact ih hd.2 h hrest he
      · rename_i ho
        rw [if_neg ho]
        exact ih hd.2 h hrest he

/-- The error of computing slots is the executor's answer for one of them. -/
theorem computeSlots_error {slots : List (TotalSlot × Aggregate)} {c : Column} {e : QueryError}
    (h : (computeSlots executor filtered p slots c).2 = .error e) :
    ∃ s ∈ slots, executor.scalar ⟨filtered, p, s.2⟩ = .error e := by
  induction slots generalizing c with
  | nil => cases h
  | cons s rest ih =>
    obtain ⟨slot, aggregate⟩ := s
    simp only [computeSlots] at h
    split at h
    · cases hv : executor.scalar ⟨filtered, p, aggregate⟩ with
      | error e' =>
        rw [hv] at h
        cases h
        exact ⟨(slot, aggregate), List.mem_cons_self, hv⟩
      | ok v =>
        rw [hv] at h
        obtain ⟨s, hs, he⟩ := ih h
        exact ⟨s, List.mem_cons_of_mem _ hs, he⟩
    · obtain ⟨s, hs, he⟩ := ih h
      exact ⟨s, List.mem_cons_of_mem _ hs, he⟩

end Slots

variable (executor : Executor) (filtered : Query)

/-- A pass changes the flags that a column cannot have and its values, and nothing else. -/
theorem computeTotals_frame (c : Column) :
    (c.computeTotals executor filtered).1 =
      (c.restrictFlags c.supportedSlots).withValues
        (c.computeTotals executor filtered).1.values := by
  unfold computeTotals supportedSlots
  cases c.support? with
  | none => rfl
  | some support =>
    exact computeSlots_frame executor filtered support.projection support.slots
      (c.restrictFlags (support.slots.map (·.1)))

theorem computeTotals_get_of_disabled {c : Column} {slot : TotalSlot}
    (h : (c.flags.restrict c.supportedSlots).get slot = false) :
    (c.computeTotals executor filtered).1.values.get slot = c.values.get slot := by
  unfold supportedSlots at h
  unfold computeTotals
  cases hs : c.support? with
  | none => rfl
  | some support =>
    rw [hs] at h
    have hslots : (c.restrictFlags (support.slots.map (·.1))).flags.get slot = false := h
    exact computeSlots_get_of_disabled executor filtered support.projection hslots

theorem computeTotals_error {c : Column} {e : QueryError}
    (h : (c.computeTotals executor filtered).2 = .error e) :
    ∃ support, c.support? = some support ∧
      ∃ s ∈ support.slots, executor.scalar ⟨filtered, support.projection, s.2⟩ = .error e := by
  unfold computeTotals at h
  cases hs : c.support? with
  | none => rw [hs] at h; cases h
  | some support =>
    rw [hs] at h
    exact ⟨support, rfl, computeSlots_error executor filtered support.projection h⟩

/-- After a successful pass a column can have what is still enabled, and holds the executor's
answer for it. -/
theorem computeTotals_get_of_ok {c d : Column}
    (h : c.computeTotals executor filtered = (d, .ok ())) {slot : TotalSlot}
    (he : d.flags.get slot = true) :
    ∃ support aggregate v, c.support? = some support ∧ (slot, aggregate) ∈ support.slots ∧
      executor.scalar ⟨filtered, support.projection, aggregate⟩ = .ok v ∧
      d.values.get slot = some (Total.ofResult v) := by
  have hf := computeTotals_frame executor filtered c
  rw [h] at hf
  have hflag : (c.restrictFlags c.supportedSlots).flags.get slot = true :=
    (congrArg (fun d => d.flags.get slot) hf).symm.trans he
  have hmem : slot ∈ c.supportedSlots := by
    have hr := (TotalFlags.get_restrict c.flags c.supportedSlots slot).symm.trans hflag
    exact List.contains_iff_mem.mp (Bool.and_eq_true_iff.mp hr).2
  unfold supportedSlots at hflag hmem
  unfold computeTotals at h
  cases hs : c.support? with
  | none =>
    rw [hs] at hmem
    cases hmem
  | some support =>
    simp only [hs] at h hflag hmem
    obtain ⟨⟨other, aggregate⟩, hm, hslot⟩ := List.mem_map.mp hmem
    change other = slot at hslot
    rw [hslot] at hm
    obtain ⟨v, hv, hget⟩ := computeSlots_get_of_ok executor filtered support.projection
      (ColumnState.supports_of_support? hs).nodup (congrArg Prod.snd h) hm hflag
    rw [h] at hget
    exact ⟨support, aggregate, v, rfl, hm, hv, hget⟩

/-! ## All columns -/

/-- A pass over columns succeeds when it succeeds on each of them. -/
theorem computeAll_eq_ok {cs ds : List Column} :
    computeAll executor filtered cs = (ds, .ok ()) ↔
      List.Forall₂ (fun c d => c.computeTotals executor filtered = (d, .ok ())) cs ds := by
  induction cs generalizing ds with
  | nil =>
    simp only [computeAll, Prod.mk.injEq, and_true, List.forall₂_nil_left_iff]
    exact eq_comm
  | cons c cs ih =>
    rw [List.forall₂_cons_left_iff]
    simp only [computeAll]
    rcases hc : c.computeTotals executor filtered with ⟨d, e | u⟩
    · simp
    · rcases ha : computeAll executor filtered cs with ⟨rest, result⟩
      simp only [Prod.mk.injEq]
      constructor
      · rintro ⟨rfl, rfl⟩
        exact ⟨d, rest, ⟨rfl, trivial⟩, ih.mp ha, rfl⟩
      · rintro ⟨b, bs, ⟨rfl, -⟩, hbs, rfl⟩
        have hrest := ih.mpr hbs
        rw [ha] at hrest
        cases hrest
        exact ⟨rfl, rfl⟩

theorem exists_of_mem_computeAll {cs ds : List Column}
    (h : computeAll executor filtered cs = (ds, .ok ())) {d : Column} (hd : d ∈ ds) :
    ∃ c : Column, c.computeTotals executor filtered = (d, .ok ()) := by
  have hflip : List.Forall₂ (fun d c : Column =>
      (∃ c : Column, c.computeTotals executor filtered = (d, .ok ())) ∧
        c.computeTotals executor filtered = (d, .ok ())) ds cs :=
    (((computeAll_eq_ok executor filtered).mp h).imp fun c _ hc => ⟨⟨c, hc⟩, hc⟩).flip
  exact ((List.forall₂_and_left ds cs).mp hflip).1 d hd

theorem computeAll_error {cs : List Column} {e : QueryError}
    (h : (computeAll executor filtered cs).2 = .error e) :
    ∃ c ∈ cs, (c.computeTotals executor filtered).2 = .error e := by
  induction cs with
  | nil => cases h
  | cons c cs ih =>
    simp only [computeAll] at h
    rcases hc : c.computeTotals executor filtered with ⟨d, e' | u⟩
    · rw [hc] at h
      cases h
      exact ⟨c, List.mem_cons_self, by rw [hc]⟩
    · rw [hc] at h
      obtain ⟨x, hx, he⟩ := ih h
      exact ⟨x, List.mem_cons_of_mem c hx, he⟩

end Column

/-! ## Calculations -/

namespace Columns

/-- The columns without the results of calculations. -/
def withoutResults (cs : Columns) : Columns := cs.map Column.withoutResults

theorem map_modifyFirst {β : Type} (g : Column → β) {f : Column → Column} (h : ∀ c, g (f c) = g c)
    (name : String) (cs : List Column) : (modifyFirst name f cs).map g = cs.map g := by
  induction cs with
  | nil => rfl
  | cons c cs ih =>
    unfold modifyFirst
    split
    · rw [List.map_cons, List.map_cons, h]
    · rw [List.map_cons, List.map_cons, ih]

theorem withoutResults_calculate (cs : Columns) (column : String) (k : Calculation) :
    (cs.calculate column k).withoutResults = cs.withoutResults := by
  unfold calculate
  cases Total.ofValue? (k.result cs.states) with
  | none => rfl
  | some total =>
    have h := map_modifyFirst Column.withoutResults (f := (·.pushCalculation k.name total))
      (fun _ => rfl) column cs.toList
    exact congrArg Columns.mk h

/-- Calculations change nothing but the results of calculations. -/
theorem withoutResults_calculateAll (cs : Columns) :
    cs.calculateAll.withoutResults = cs.withoutResults := by
  unfold calculateAll
  generalize cs.calculations = ks
  induction ks generalizing cs with
  | nil => rfl
  | cons k ks ih =>
    rw [List.foldl_cons, ih, withoutResults_calculate]

end Columns

end DataGrid
