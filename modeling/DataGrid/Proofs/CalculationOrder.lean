import DataGrid.Proofs.TotalsPass

/-!
# What a calculation sees

Calculations run after all aggregates, in the order of the columns and, within a column, in the
order of their registration, and each result is stored before the next one runs. A log of what
they gave tells the columns that each of them saw: those after the pass, with the results of
earlier calculations and no others. So the log up to a calculation, and every aggregate, stays the
same when the function of that calculation is replaced.
-/

namespace DataGrid

/-- What a calculation of a column gave; no total if its result has no total form. -/
structure Outcome where
  column : String
  calculation : Calculation
  total : Option Total

namespace Outcome

/-- What is stored: the name of the calculation and its total. -/
def entry? (o : Outcome) : Option (String × Total) := o.total.map (o.calculation.name, ·)

/-- The outcomes of a column's calculations. -/
def ofColumn (column : String) (log : List Outcome) : List Outcome :=
  log.filter (·.column = column)

/-- The calculation results of a column. -/
def results (column : String) (log : List Outcome) : List (String × Total) :=
  (ofColumn column log).filterMap entry?

end Outcome

/-- The calculation with another function. -/
def Calculation.withResult (k : Calculation) (f : List ColumnState → Value) : Calculation :=
  { k with result := f }

/-- The column state with the results of a log in place of its own. -/
def ColumnState.withOutcomes (log : List Outcome) (c : ColumnState) : ColumnState :=
  { c with values := { c.values with calculations := Outcome.results c.name log } }

namespace Column

/-- The column with the results of a log in place of its own. -/
def withOutcomes (log : List Outcome) (c : Column) : Column :=
  { c with toColumnState := c.toColumnState.withOutcomes log }

/-- The column with another function for one of its calculations. -/
def replaceResult (j : Nat) (f : List ColumnState → Value) (c : Column) : Column :=
  { c with calculations := c.calculations.modify j (·.withResult f) }

end Column

namespace Columns

/-- The columns with the results of a log in place of their own. -/
def withOutcomes (log : List Outcome) (cs : Columns) : Columns := cs.map (Column.withOutcomes log)

/-- The columns with another function for the calculation `j` of the column `i`. -/
def replaceResult (i j : Nat) (f : List ColumnState → Value) (cs : Columns) : Columns :=
  ⟨cs.toList.modify i (Column.replaceResult j f)⟩

/-- How many calculations come before the calculation `j` of the column `i`. -/
def rank (i j : Nat) (cs : Columns) : Nat :=
  ((cs.toList.take i).flatMap (·.calculations)).length + j

/-- The log of a pass over columns: every calculation in its order, the total of what it makes of
the final columns with the results before its own, and as the results of each column, by
registration, the totals of its calculations. -/
structure Recorded (cs after : Columns) (log : List Outcome) : Prop where
  complete : log.map (fun o => (o.column, o.calculation)) = cs.calculations
  evaluated : ∀ earlier o later, log = earlier ++ o :: later →
    o.total = Total.ofValue? (o.calculation.result (after.withOutcomes earlier).states)
  stored : ∀ c ∈ after.toList,
    (Outcome.ofColumn c.name log).map (·.calculation) = c.calculations ∧
      c.values.calculations = Outcome.results c.name log

end Columns

/-! ## Storing a result -/

namespace Outcome

theorem results_concat (column : String) (log : List Outcome) (o : Outcome) :
    results column (log ++ [o]) =
      results column log ++ if o.column = column then o.entry?.toList else [] := by
  unfold results ofColumn
  rw [List.filter_append, List.filterMap_append]
  by_cases h : o.column = column
  · rw [if_pos h, List.filter_cons_of_pos (by simpa using h), List.filter_nil]
    cases ho : o.entry? <;> simp [ho]
  · rw [if_neg h, List.filter_cons_of_neg (by simpa using h), List.filter_nil]
    rfl

end Outcome

namespace Column

theorem withOutcomes_nil {c : Column} (h : c.values.calculations = []) : c.withOutcomes [] = c := by
  have hresults : Outcome.results c.name [] = c.values.calculations := h.symm
  unfold withOutcomes ColumnState.withOutcomes
  rw [hresults]

theorem withOutcomes_concat_of_none {o : Outcome} (h : o.total = none) (log : List Outcome)
    (c : Column) : c.withOutcomes (log ++ [o]) = c.withOutcomes log := by
  have hresults : Outcome.results c.name (log ++ [o]) = Outcome.results c.name log := by
    have hentry : o.entry? = none := congrArg (Option.map _) h
    rw [Outcome.results_concat, hentry]
    split <;> exact List.append_nil _
  unfold withOutcomes ColumnState.withOutcomes
  rw [hresults]

theorem withOutcomes_concat_of_some {o : Outcome} {total : Total} (h : o.total = some total)
    (log : List Outcome) (c : Column) :
    c.withOutcomes (log ++ [o]) =
      if c.name = o.column then (c.withOutcomes log).pushCalculation o.calculation.name total
      else c.withOutcomes log := by
  have hentry : o.entry? = some (o.calculation.name, total) := congrArg (Option.map _) h
  unfold withOutcomes ColumnState.withOutcomes
  rw [Outcome.results_concat, hentry]
  by_cases hname : c.name = o.column
  · rw [if_pos hname, if_pos hname.symm]
    rfl
  · rw [if_neg hname, if_neg (Ne.symm hname), List.append_nil]

end Column

namespace Columns

/-- What a calculation gives behind a log. -/
def outcome (cs : Columns) (log : List Outcome) (k : String × Calculation) : Outcome :=
  ⟨k.1, k.2, Total.ofValue? (k.2.result (cs.withOutcomes log).states)⟩

/-- The log of calculations that run one after the other behind a log. -/
def record (cs : Columns) (log : List Outcome) : List (String × Calculation) → List Outcome
  | [] => log
  | k :: ks => cs.record (log ++ [cs.outcome log k]) ks

variable {cs : Columns} {log : List Outcome}

theorem modifyFirst_eq_map {cs : List Column} (h : (cs.map (·.name)).Nodup) (name : String)
    (f : Column → Column) :
    modifyFirst name f cs = cs.map fun c => if c.name = name then f c else c := by
  induction cs with
  | nil => rfl
  | cons c cs ih =>
    rw [List.map_cons, List.nodup_cons] at h
    unfold modifyFirst
    rw [List.map_cons]
    split
    · rename_i hname
      have hrest : ∀ d ∈ cs, d.name ≠ name := by
        rintro d hd rfl
        exact h.1 (hname ▸ List.mem_map_of_mem hd)
      congr 1
      refine (List.map_id cs).symm.trans (List.map_congr_left fun d hd => ?_)
      rw [if_neg (hrest d hd)]
      rfl
    · rw [ih h.2]

theorem names_withOutcomes (cs : Columns) (log : List Outcome) :
    (cs.withOutcomes log).names = cs.names := List.map_map

/-- A calculation stores its outcome and nothing else. -/
theorem calculate_withOutcomes (hnames : cs.names.Nodup) (log : List Outcome)
    (k : String × Calculation) :
    (cs.withOutcomes log).calculate k.1 k.2 = cs.withOutcomes (log ++ [cs.outcome log k]) := by
  unfold calculate
  cases htotal : Total.ofValue? (k.2.result (cs.withOutcomes log).states) with
  | none =>
    have heach := Column.withOutcomes_concat_of_none (o := cs.outcome log k) htotal log
    exact congrArg Columns.mk (List.map_congr_left fun c _ => (heach c).symm)
  | some total =>
    have heach := Column.withOutcomes_concat_of_some (o := cs.outcome log k) htotal log
    have hdistinct : (cs.withOutcomes log).names.Nodup := by rwa [names_withOutcomes]
    refine congrArg Columns.mk ((modifyFirst_eq_map hdistinct _ _).trans ?_)
    rw [withOutcomes, map, List.map_map]
    exact List.map_congr_left fun c _ => (heach c).symm

/-- Calculations that run one after the other store their log. -/
theorem foldl_calculate (hnames : cs.names.Nodup) (log : List Outcome)
    (ks : List (String × Calculation)) :
    ks.foldl (fun cs (k : String × Calculation) => cs.calculate k.1 k.2) (cs.withOutcomes log) =
      cs.withOutcomes (cs.record log ks) := by
  induction ks generalizing log with
  | nil => rfl
  | cons k ks ih => rw [List.foldl_cons, calculate_withOutcomes hnames, ih, record]

/-! ## The log of a run -/

theorem map_record (cs : Columns) (log : List Outcome) (ks : List (String × Calculation)) :
    (cs.record log ks).map (fun o => (o.column, o.calculation)) =
      log.map (fun o => (o.column, o.calculation)) ++ ks := by
  induction ks generalizing log with
  | nil => exact (List.append_nil _).symm
  | cons k ks ih =>
    rw [record, ih, List.map_append, List.append_assoc]
    rfl

/-- The log up to a calculation is that of the calculations before it. -/
theorem take_record (cs : Columns) (log : List Outcome) (ks : List (String × Calculation))
    (n : Nat) : (cs.record log ks).take (log.length + n) = cs.record log (ks.take n) := by
  induction ks generalizing log n with
  | nil =>
    rw [List.take_nil]
    exact List.take_of_length_le (Nat.le_add_right ..)
  | cons k ks ih =>
    cases n with
    | zero =>
      -- The log of the next outcome begins with this one.
      have hfirst := ih (log ++ [cs.outcome log k]) 0
      rw [List.take_zero, record, List.length_append, List.length_singleton] at hfirst
      have hprefix := congrArg (List.take log.length) hfirst
      rw [List.take_take, List.take_append_length, Nat.min_eq_left (by omega)] at hprefix
      exact hprefix
    | succ n =>
      have hrest := ih (log ++ [cs.outcome log k]) n
      rw [List.length_append, List.length_singleton, Nat.add_right_comm, Nat.add_assoc] at hrest
      exact hrest

/-- Each outcome of a log is that of its calculation behind the log before it. -/
def Traced (cs : Columns) (log : List Outcome) : Prop :=
  ∀ earlier o later, log = earlier ++ o :: later →
    o = cs.outcome earlier (o.column, o.calculation)

theorem Traced.concat (h : cs.Traced log) (k : String × Calculation) :
    cs.Traced (log ++ [cs.outcome log k]) := by
  intro earlier o later hsplit
  rcases List.eq_nil_or_concat later with rfl | ⟨later, last, rfl⟩
  · obtain ⟨rfl, hlast⟩ := List.append_inj' hsplit rfl
    cases hlast
    rfl
  · have hlast : log ++ [cs.outcome log k] = (earlier ++ o :: later) ++ [last] := by
      simpa using hsplit
    exact h earlier o later (List.append_inj' hlast rfl).1

theorem Traced.record (h : cs.Traced log) (ks : List (String × Calculation)) :
    cs.Traced (cs.record log ks) := by
  induction ks generalizing log with
  | nil => exact h
  | cons k ks ih => exact ih (h.concat k)

theorem states_withOutcomes (cs : Columns) (log : List Outcome) :
    (cs.withOutcomes log).states = cs.states.map (ColumnState.withOutcomes log) := by
  unfold states withOutcomes map
  rw [List.map_map, List.map_map]
  rfl

/-- Columns in the same states give the same log. -/
theorem record_congr {ds : Columns} (h : cs.states = ds.states) (log : List Outcome)
    (ks : List (String × Calculation)) : cs.record log ks = ds.record log ks := by
  induction ks generalizing log with
  | nil => rfl
  | cons k ks ih =>
    have houtcome : cs.outcome log k = ds.outcome log k := by
      unfold outcome
      rw [states_withOutcomes, states_withOutcomes, h]
    rw [record, record, houtcome, ih]

/-! ## The calculations of columns -/

/-- Columns with the same names and calculations run the same calculations. -/
theorem calculations_congr {cs ds : Columns}
    (h : cs.toList.map (fun c => (c.name, c.calculations)) =
      ds.toList.map (fun d => (d.name, d.calculations))) : cs.calculations = ds.calculations := by
  have hpairs : ∀ cs : Columns, cs.calculations =
      (cs.toList.map fun c => (c.name, c.calculations)).flatMap fun p => p.2.map (p.1, ·) := by
    intro cs
    rw [List.flatMap_map]
    rfl
  rw [hpairs, hpairs ds, h]

theorem map_snd_filter_pairs (ks : List Calculation) (own name : String) :
    ((ks.map (own, ·)).filter (·.1 = name)).map (·.2) = if own = name then ks else [] := by
  by_cases h : own = name <;> simp [List.filter_map, h, Function.comp_def]

/-- The calculations of a column are those that run under its name. -/
theorem filter_calculations (hnames : cs.names.Nodup) {c : Column} (hc : c ∈ cs.toList) :
    (cs.calculations.filter (·.1 = c.name)).map (·.2) = c.calculations := by
  have heach : ∀ l : List Column, (l.map (·.name)).Nodup → c ∈ l →
      l.flatMap (fun d => if d.name = c.name then d.calculations else []) = c.calculations := by
    intro l hl hmem
    induction l with
    | nil => cases hmem
    | cons d l ih =>
      rw [List.map_cons, List.nodup_cons] at hl
      rw [List.flatMap_cons]
      rcases List.mem_cons.1 hmem with rfl | hmem
      · have hrest : l.flatMap (fun d => if d.name = c.name then d.calculations else []) = [] := by
          rw [List.flatMap_eq_nil_iff]
          intro d hd
          refine if_neg fun hname => hl.1 ?_
          rw [← hname]
          exact List.mem_map_of_mem hd
        rw [if_pos rfl, hrest, List.append_nil]
      · have hname : d.name ≠ c.name := fun h => hl.1 (h ▸ List.mem_map_of_mem hmem)
        rw [if_neg hname, List.nil_append]
        exact ih hl.2 hmem
  unfold calculations
  rw [List.filter_flatMap, List.map_flatMap]
  simp only [map_snd_filter_pairs]
  exact heach cs.toList hnames hc

/-- Replacing the function of a calculation leaves the calculations before it. -/
theorem take_calculations_replaceResult (cs : Columns) (i j : Nat)
    (f : List ColumnState → Value) :
    (cs.replaceResult i j f).calculations.take (cs.rank i j) =
      cs.calculations.take (cs.rank i j) := by
  obtain ⟨l⟩ := cs
  unfold replaceResult calculations rank
  induction l generalizing i with
  | nil => simp
  | cons c l ih =>
    cases i with
    | zero =>
      have hown : (c.calculations.modify j (·.withResult f)).take j = c.calculations.take j := by
        rw [List.take_modify, List.modify_eq_self (List.length_take_le ..)]
      simp only [List.modify_zero_cons, List.flatMap_cons, List.take_zero, List.flatMap_nil,
        List.length_nil, Nat.zero_add, List.take_append, ← List.map_take, List.length_map]
      simp only [Column.replaceResult, hown, List.length_modify]
    | succ i =>
      simp only [List.modify_succ_cons, List.flatMap_cons, List.take_succ_cons,
        List.length_append, Nat.add_assoc]
      have hlength : (c.calculations.map (c.name, ·)).length = c.calculations.length :=
        List.length_map ..
      rw [← hlength, List.take_length_add_append, List.take_length_add_append, ih]

theorem names_eq_states (cs : Columns) : cs.names = cs.states.map (·.name) :=
  List.map_map.symm

theorem states_clearTotals (cs : Columns) :
    cs.clearTotals.states = cs.states.map fun c => { c with values := {} } := by
  unfold states clearTotals map
  rw [List.map_map, List.map_map]
  rfl

theorem states_replaceResult (cs : Columns) (i j : Nat) (f : List ColumnState → Value) :
    (cs.replaceResult i j f).states = cs.states := by
  obtain ⟨l⟩ := cs
  unfold replaceResult states
  induction l generalizing i with
  | nil => rw [List.modify_nil]
  | cons c l ih =>
    cases i with
    | zero => rfl
    | succ i =>
      rw [List.modify_succ_cons, List.map_cons, List.map_cons, ih]

end Columns

/-! ## The aggregates of a pass -/

namespace Column

variable (executor : Executor) (filtered : Query)

/-- Aggregates depend on the states of columns only. -/
theorem computeSlots_congr (p : Projection) (slots : List (TotalSlot × Aggregate)) {c d : Column}
    (h : c.toColumnState = d.toColumnState) :
    (computeSlots executor filtered p slots c).1.toColumnState =
        (computeSlots executor filtered p slots d).1.toColumnState ∧
      (computeSlots executor filtered p slots c).2 =
        (computeSlots executor filtered p slots d).2 := by
  induction slots generalizing c d with
  | nil => exact ⟨h, rfl⟩
  | cons s rest ih =>
    obtain ⟨slot, aggregate⟩ := s
    simp only [computeSlots, h]
    split
    · cases executor.scalar ⟨filtered, p, aggregate⟩ with
      | error e => exact ⟨h, rfl⟩
      | ok v =>
        refine ih ?_
        unfold setValue
        rw [h]
    · exact ih h

theorem computeTotals_congr {c d : Column} (h : c.toColumnState = d.toColumnState) :
    (c.computeTotals executor filtered).1.toColumnState =
        (d.computeTotals executor filtered).1.toColumnState ∧
      (c.computeTotals executor filtered).2 = (d.computeTotals executor filtered).2 := by
  have hflags : ∀ slots, (c.restrictFlags slots).toColumnState =
      (d.restrictFlags slots).toColumnState := by
    intro slots
    unfold restrictFlags
    rw [h]
  unfold computeTotals
  rw [h]
  cases d.support? with
  | none => exact ⟨hflags [], rfl⟩
  | some support => exact computeSlots_congr executor filtered _ _ (hflags _)

theorem computeAll_congr {cs ds : List Column}
    (h : cs.map (·.toColumnState) = ds.map (·.toColumnState)) :
    (computeAll executor filtered cs).1.map (·.toColumnState) =
        (computeAll executor filtered ds).1.map (·.toColumnState) ∧
      (computeAll executor filtered cs).2 = (computeAll executor filtered ds).2 := by
  induction cs generalizing ds with
  | nil =>
    obtain rfl := List.map_eq_nil_iff.1 h.symm
    exact ⟨rfl, rfl⟩
  | cons c cs ih =>
    obtain ⟨d, ds, rfl, hd, hrest⟩ := List.map_eq_cons_iff.1 h.symm
    obtain ⟨hstate, hresult⟩ := computeTotals_congr executor filtered hd.symm
    obtain ⟨hstates, hresults⟩ := ih hrest.symm
    simp only [computeAll]
    rcases hc : c.computeTotals executor filtered with ⟨c', e | u⟩ <;>
      rcases hd : d.computeTotals executor filtered with ⟨d', e' | u'⟩ <;>
      rw [hc, hd] at hstate hresult <;> cases hresult
    · exact ⟨congrArg₂ List.cons hstate hrest.symm, rfl⟩
    · exact ⟨congrArg₂ List.cons hstate hstates, hresults⟩

theorem computeSlots_calculations (p : Projection) (slots : List (TotalSlot × Aggregate))
    (c : Column) :
    (computeSlots executor filtered p slots c).1.values.calculations = c.values.calculations := by
  induction slots generalizing c with
  | nil => rfl
  | cons s rest ih =>
    obtain ⟨slot, aggregate⟩ := s
    simp only [computeSlots]
    split
    · cases executor.scalar ⟨filtered, p, aggregate⟩ with
      | error e => rfl
      | ok v =>
        have hset : (c.setValue slot (Total.ofResult v)).values.calculations =
            c.values.calculations := by
          cases slot <;> rfl
        exact (ih _).trans hset
    · exact ih c

/-- Computing aggregates keeps the results of calculations. -/
theorem computeTotals_calculations (c : Column) :
    (c.computeTotals executor filtered).1.values.calculations = c.values.calculations := by
  unfold computeTotals
  cases c.support? with
  | none => rfl
  | some support => exact computeSlots_calculations executor filtered _ _ _

/-- What computing aggregates keeps of a column. -/
theorem computeTotals_kept (c : Column) :
    ((c.computeTotals executor filtered).1.name,
      (c.computeTotals executor filtered).1.calculations) = (c.name, c.calculations) := by
  rw [computeTotals_frame]
  rfl

end Column

namespace Columns

theorem computeTotals_eq_ok {cs after : Columns} {paging : Paging} {ctx : Context}
    {predicate : Option Predicate} {executor : Executor} (hpaging : paging.skipsTotals = false) :
    cs.computeTotals paging none ctx predicate executor = (after, .ok ()) ↔
      ∃ ds, Column.computeAll executor (ctx.filtered predicate) cs.clearTotals.toList =
        (ds, .ok ()) ∧ calculateAll ⟨ds⟩ = after := by
  unfold computeTotals
  simp only [hpaging, Bool.false_eq_true, if_false]
  rcases Column.computeAll executor (ctx.filtered predicate) cs.clearTotals.toList with ⟨ds, e | u⟩
  · simp
  · simp

theorem withOutcomes_withOutcomes (cs : Columns) (log log' : List Outcome) :
    (cs.withOutcomes log).withOutcomes log' = cs.withOutcomes log' :=
  congrArg Columns.mk List.map_map

theorem withoutResults_withOutcomes (cs : Columns) (log : List Outcome) :
    (cs.withOutcomes log).withoutResults = cs.withOutcomes [] :=
  congrArg Columns.mk List.map_map

variable {cs : Columns}

/-- Columns before their calculations. -/
structure Unrecorded (cs : Columns) : Prop where
  names : cs.names.Nodup
  results : cs.withOutcomes [] = cs

/-- All calculations store their log. -/
theorem Unrecorded.calculateAll (h : cs.Unrecorded) :
    cs.calculateAll = cs.withOutcomes (cs.record [] cs.calculations) := by
  have hrun := foldl_calculate h.names [] cs.calculations
  rw [h.results] at hrun
  exact hrun

theorem Unrecorded.recorded (h : cs.Unrecorded) :
    Recorded cs cs.calculateAll (cs.record [] cs.calculations) := by
  rw [h.calculateAll]
  have hcomplete := map_record cs [] cs.calculations
  refine ⟨hcomplete, ?_, ?_⟩
  · intro earlier o later hsplit
    have hnil : cs.Traced [] := by
      intro earlier o later h
      cases earlier <;> cases h
    have htraced := hnil.record cs.calculations earlier o later hsplit
    rw [withOutcomes_withOutcomes]
    exact congrArg Outcome.total htraced
  · intro c hc
    obtain ⟨d, hd, rfl⟩ := List.mem_map.1 hc
    refine ⟨?_, rfl⟩
    have hown := filter_calculations h.names hd
    rw [← List.nil_append cs.calculations, ← List.map_nil, ← hcomplete, List.filter_map,
      List.map_map] at hown
    exact hown

section Pass

variable {paging : Paging} {ctx : Context} {predicate : Option Predicate} {executor : Executor}

theorem forall₂_map_eq {α β γ : Type} {r : α → β → Prop} {f : α → γ} {g : β → γ} {as : List α}
    {bs : List β} (h : List.Forall₂ r as bs) (heq : ∀ a b, r a b → f a = g b) :
    as.map f = bs.map g := by
  induction h with
  | nil => rfl
  | cons hab _ ih => rw [List.map_cons, List.map_cons, heq _ _ hab, ih]

/-- The aggregates of a pass leave no results of calculations, and all calculations. -/
theorem unrecorded_of_computeAll (hnames : cs.names.Nodup) {filtered : Query} {ds : List Column}
    (h : Column.computeAll executor filtered cs.clearTotals.toList = (ds, .ok ())) :
    (⟨ds⟩ : Columns).Unrecorded ∧ (⟨ds⟩ : Columns).calculations = cs.calculations := by
  have heach := (Column.computeAll_eq_ok executor filtered).1 h
  have hkept : cs.clearTotals.toList.map (fun c => (c.name, c.calculations)) =
      ds.map fun d => (d.name, d.calculations) := by
    refine forall₂_map_eq heach fun c d hcd => ?_
    have hc := Column.computeTotals_kept executor filtered c
    rw [hcd] at hc
    exact hc.symm
  have hcleared : cs.clearTotals.toList.map (fun c => (c.name, c.calculations)) =
      cs.toList.map fun c => (c.name, c.calculations) := List.map_map
  refine ⟨⟨?_, ?_⟩, (calculations_congr (hcleared.symm.trans hkept)).symm⟩
  · have hsame : (⟨ds⟩ : Columns).names = cs.names := by
      have hfirst := congrArg (List.map Prod.fst) (hcleared.symm.trans hkept)
      rw [List.map_map, List.map_map] at hfirst
      exact hfirst.symm
    rwa [hsame]
  · have hresults : cs.clearTotals.toList.map (fun c => c.values.calculations) =
        ds.map fun d => d.values.calculations := by
      refine forall₂_map_eq heach fun c d hcd => ?_
      have hc := Column.computeTotals_calculations executor filtered c
      rw [hcd] at hc
      exact hc.symm
    have hnone : ∀ d ∈ ds, d.values.calculations = [] := by
      intro d hd
      have hmem := List.mem_map_of_mem (f := fun d : Column => d.values.calculations) hd
      rw [← hresults, clearTotals, map, List.map_map] at hmem
      obtain ⟨c, -, hc⟩ := List.mem_map.1 hmem
      exact hc.symm
    refine congrArg Columns.mk ((List.map_congr_left fun d hd => ?_).trans (List.map_id ds))
    exact Column.withOutcomes_nil (hnone d hd)

/-- The log of a pass whose aggregates have been computed. -/
theorem recorded_of_computeAll (hnames : cs.names.Nodup) {filtered : Query} {ds : List Column}
    (h : Column.computeAll executor filtered cs.clearTotals.toList = (ds, .ok ())) :
    Recorded cs (calculateAll ⟨ds⟩) ((⟨ds⟩ : Columns).record [] cs.calculations) ∧
      (calculateAll ⟨ds⟩).withoutResults = ⟨ds⟩ := by
  obtain ⟨hbase, hcalculations⟩ := unrecorded_of_computeAll hnames h
  have hrecorded := hbase.recorded
  rw [hcalculations] at hrecorded
  refine ⟨⟨hrecorded.complete.trans hcalculations, hrecorded.evaluated, hrecorded.stored⟩, ?_⟩
  rw [hbase.calculateAll, withoutResults_withOutcomes, hbase.results]

theorem take_record_nil (cs : Columns) (ks : List (String × Calculation)) (n : Nat) :
    (cs.record [] ks).take n = cs.record [] (ks.take n) := by
  have h := take_record cs [] ks n
  rwa [List.length_nil, Nat.zero_add] at h

/-- **Calculations see exactly the past.** A successful totals pass has a log of all calculations,
in the order of the columns and of registration. Each was evaluated on the columns after the pass,
with all their aggregates, but with the results of the calculations before it and no others; and
each column holds the totals of its own calculations under their names, but for results without a
total form. With another function for one calculation, the pass succeeds with the same aggregates,
and the log up to that calculation is the same. -/
theorem computeTotals_sees_past {after : Columns} (hnames : cs.names.Nodup)
    (hpaging : paging.skipsTotals = false)
    (h : cs.computeTotals paging none ctx predicate executor = (after, .ok ())) :
    ∃ log, Recorded cs after log ∧
      Column.computeAll executor (ctx.filtered predicate) cs.clearTotals.toList =
        (after.withoutResults.toList, .ok ()) ∧
      ∀ i j f, ∃ after' log',
        (cs.replaceResult i j f).computeTotals paging none ctx predicate executor =
          (after', .ok ()) ∧
        Recorded (cs.replaceResult i j f) after' log' ∧
        after'.withoutResults.states = after.withoutResults.states ∧
        log'.take (cs.rank i j) = log.take (cs.rank i j) := by
  obtain ⟨ds, hall, rfl⟩ := (computeTotals_eq_ok hpaging).1 h
  obtain ⟨hrecorded, hresults⟩ := recorded_of_computeAll hnames hall
  refine ⟨_, hrecorded, ?_, fun i j f => ?_⟩
  · rw [hresults]
    exact hall
  · -- Aggregates read states, and the function of a calculation is no part of a state.
    have hsame : (cs.replaceResult i j f).names = cs.names := by
      rw [names_eq_states, states_replaceResult, ← names_eq_states]
    have hcleared : (cs.replaceResult i j f).clearTotals.states = cs.clearTotals.states := by
      rw [states_clearTotals, states_replaceResult, ← states_clearTotals]
    obtain ⟨hstates, hsuccess⟩ :=
      Column.computeAll_congr executor (ctx.filtered predicate) hcleared
    rcases hall' : Column.computeAll executor (ctx.filtered predicate)
      (cs.replaceResult i j f).clearTotals.toList with ⟨ds', result⟩
    rw [hall, hall'] at hstates hsuccess
    obtain rfl : result = .ok () := hsuccess
    obtain ⟨hrecorded', hresults'⟩ := recorded_of_computeAll (hsame ▸ hnames) hall'
    refine ⟨_, _, (computeTotals_eq_ok hpaging).2 ⟨ds', hall', rfl⟩, hrecorded', ?_, ?_⟩
    · rw [hresults, hresults']
      exact hstates
    · rw [take_record_nil, take_record_nil, take_calculations_replaceResult,
        record_congr hstates]

end Pass

/-- A column with a sum and three calculations, of which the second has no total form and the last
has the name of the first, and a column that counts the results so far. -/
def countingColumns : Columns :=
  let stock := (Column.ofExpression "Stock" .int).setFlag .sum true
  let seen (cs : List ColumnState) : Value :=
    .int (cs.flatMap (·.values.calculations)).length.toInt64
  ⟨[((stock.withCalculation ⟨"x", fun _ => .int 5⟩).withCalculation
        ⟨"flag", fun _ => .bool true⟩).withCalculation ⟨"x", fun cs => .int cs.length.toInt64⟩,
    (Column.named "Derived" .int).withCalculation ⟨"seen", seen⟩]⟩

/-- Two rows with a stock. -/
def stockStore : Store :=
  ⟨[("products", [[("Stock", .number (.integer 5))], [("Stock", .number (.integer 2))]])]⟩

/-- What is stored for the columns: two results of the first one, which the calculation of the
second counts; with another function for the last calculation of the first column, the log of the
two before it stays. -/
theorem computeTotals_sees_past_of_stock :
    countingColumns.names.Nodup ∧ Paging.skipsTotals {} = false ∧
      ∃ after, countingColumns.computeTotals {} none (.ofEntity "products") none
          stockStore.executor = (after, .ok ()) ∧
        after.toList.map (fun c => (c.values.sum, c.values.calculations)) =
          [(some (.number (.ofInt64 7)),
            [("x", .number (.ofInt64 5)), ("x", .number (.ofInt64 2))]),
           (none, [("seen", .number (.ofInt64 2))])] ∧
        countingColumns.rank 0 2 = 2 ∧
        ∃ log, Recorded countingColumns after log ∧
          ∃ after' log', Recorded (countingColumns.replaceResult 0 2 fun _ => .null) after' log' ∧
            after'.withoutResults.states = after.withoutResults.states ∧
            log'.take 2 = log.take 2 := by
  have hnames : countingColumns.names.Nodup := by decide
  have hpass : countingColumns.computeTotals {} none (.ofEntity "products") none
      stockStore.executor = ((countingColumns.computeTotals {} none (.ofEntity "products") none
        stockStore.executor).1, .ok ()) := rfl
  obtain ⟨log, hrecorded, -, hreplaced⟩ := computeTotals_sees_past hnames rfl hpass
  obtain ⟨after', log', -, hrecorded', hstates, hlog⟩ := hreplaced 0 2 fun _ => .null
  exact ⟨hnames, rfl, _, hpass, by decide +kernel, rfl, log, hrecorded, after', log', hrecorded',
    hstates, hlog⟩

end Columns

end DataGrid
