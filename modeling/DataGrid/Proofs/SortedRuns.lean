import DataGrid.Proofs.ShortSorts
import Mathlib.Data.List.Chain

/-!
# Runs are merged into the whole list

The runs of a list stand for the stretches they were taken from, in the order of the list. What is
kept when runs are merged is that they still do: those that lie on the stack, read from its bottom,
then the run at hand, and then those to come, make up the list.
-/

namespace DataGrid.StableSort

open Number

variable {α : Type} {cmp : α → α → Ordering} {xs ys zs : List α} {a b : α} {eager : Bool}

/-! ## The leading run -/

theorem chain_spec (goesOn : α → α → Bool) (a : α) (xs : List α) :
    (chain goesOn a xs).1 ++ (chain goesOn a xs).2 = xs ∧
      List.IsChain (fun x y => goesOn x y) (a :: (chain goesOn a xs).1) := by
  induction xs generalizing a with
  | nil => exact ⟨rfl, List.isChain_singleton a⟩
  | cons b xs ih =>
    rw [chain]
    split
    · rename_i hgoes
      exact ⟨congrArg (b :: ·) (ih b).1, List.isChain_cons_cons.2 ⟨hgoes, (ih b).2⟩⟩
    · exact ⟨rfl, List.isChain_singleton a⟩

/-- Elements that fall strictly are arranged by turning them round: no two of them tie. -/
theorem arranges_reverse [Std.TransCmp cmp] (h : xs.Pairwise fun a b => cmp b a = .lt) :
    Arranges cmp xs xs.reverse where
  perm := List.reverse_perm xs
  sorted := List.pairwise_reverse.2 (h.imp isLE_of_lt)
  stable c := by
    induction xs with
    | nil => rfl
    | cons x xs ih =>
      obtain ⟨hx, hxs⟩ := List.pairwise_cons.1 h
      have hlt : ∀ y ∈ xs.reverse, ∀ z ∈ [x], cmp y z = .lt := by
        intro y hy z hz
        obtain rfl := List.mem_singleton.1 hz
        exact hx y (List.mem_reverse.1 hy)
      rw [List.reverse_cons, ties_append, ← ties_comm hlt, ih hxs, ← ties_cons]

variable (cmp) in
theorem leadingRun_spec (xs : List α) :
    ∃ front, xs = front ++ (leadingRun cmp xs).2 ∧ Settled cmp front (leadingRun cmp xs).1 := by
  match xs with
  | [] => exact ⟨[], rfl, (Arranges.of_sorted .nil).settled⟩
  | [x] => exact ⟨[x], rfl, (Arranges.of_sorted (List.pairwise_singleton _ x)).settled⟩
  | a :: b :: rest =>
    rw [leadingRun]
    split
    · obtain ⟨hsplit, hchain⟩ :=
        chain_spec (fun x y => cmp y x == .lt) a (b :: rest)
      refine ⟨_, (congrArg (a :: ·) hsplit).symm, List.reverse_perm _, fun _ => ?_⟩
      refine arranges_reverse ?_
      have : IsTrans α fun x y => cmp y x == .lt := ⟨fun x y z hxy hyz => by
        simp only [beq_iff_eq] at hxy hyz ⊢
        exact Std.TransCmp.lt_trans hyz hxy⟩
      exact hchain.pairwise.imp fun h => by simpa using h
    · obtain ⟨hsplit, hchain⟩ :=
        chain_spec (fun x y => cmp y x != .lt) a (b :: rest)
      refine ⟨_, (congrArg (a :: ·) hsplit).symm, .refl _, fun _ => .of_sorted ?_⟩
      have hle : List.IsChain (fun x y => (cmp x y).isLE) (a :: (chain _ a (b :: rest)).1) :=
        hchain.imp fun x y h => isLE_of_not_lt (by simpa using h)
      have : IsTrans α fun x y => (cmp x y).isLE := ⟨fun _ _ _ => Std.TransCmp.isLE_trans⟩
      exact hle.pairwise

/-! ## Cutting a list into runs -/

/-- A run stands for a stretch of the list: that stretch in order, or as it is if runs may wait. -/
def Stands (cmp : α → α → Ordering) (eager : Bool) (xs : List α) (run : Run α) : Prop :=
  if run.ordered then Settled cmp xs run.items else run.items = xs ∧ eager = false

/-- Runs stand for the stretches of a list one after the other. -/
inductive Covers (cmp : α → α → Ordering) (eager : Bool) : List α → List (Run α) → Prop
  | nil : Covers cmp eager [] []
  | cons {xs ys run rest} : Stands cmp eager xs run → Covers cmp eager ys rest →
      Covers cmp eager (xs ++ ys) (run :: rest)

theorem takeRun_yields {good : Nat} (hgood : 0 < good) (hxs : xs ≠ []) :
    Yields (Std.TransCmp cmp)
      (fun r => ∃ front, front ≠ [] ∧ xs = front ++ r.2 ∧ Stands cmp eager front r.1)
      (takeRun cmp good eager xs) := by
  have htake : ∀ {n}, 0 < n → xs.take n ≠ [] := by
    intro n hn
    rw [ne_eq, List.take_eq_nil_iff]
    exact not_or.2 ⟨by omega, hxs⟩
  obtain ⟨front, hsplit, hsettled⟩ := leadingRun_spec cmp xs
  unfold takeRun
  generalize leadingRun cmp xs = leading at hsplit hsettled ⊢
  obtain ⟨run, rest⟩ := leading
  simp only at hsplit hsettled ⊢
  split
  · rename_i hlength
    refine ⟨front, ?_, hsplit, hsettled⟩
    have := hsettled.perm.length_eq
    exact List.ne_nil_of_length_pos (by omega)
  · split
    · refine (sortShort_yields _).map fun run hrun => ?_
      exact ⟨_, htake (by decide), (List.take_append_drop shortLength xs).symm, hrun⟩
    · rename_i heager
      exact ⟨_, htake hgood, (List.take_append_drop good xs).symm, rfl, by simpa using heager⟩

/-- A list is cut into runs. -/
theorem runs_yields {good fuel : Nat} (hgood : 0 < good) (hfuel : xs.length ≤ fuel) :
    Yields (Std.TransCmp cmp) (Covers cmp eager xs) (runs cmp good eager fuel xs) := by
  induction fuel generalizing xs with
  | zero =>
    obtain rfl := List.eq_nil_of_length_eq_zero (by omega : xs.length = 0)
    exact .nil
  | succ fuel ih =>
    match xs with
    | [] => exact .nil
    | x :: xs =>
      refine (takeRun_yields hgood (List.cons_ne_nil x xs)).bind fun (run, rest) h => ?_
      obtain ⟨front, hfront, hsplit, hrun⟩ := h
      have hlength := congrArg List.length hsplit
      have hpos := List.length_pos_of_ne_nil hfront
      rw [List.length_append] at hlength
      have hrest : rest.length ≤ fuel := by
        simp only [List.length_cons] at hlength hfuel
        omega
      refine (ih hrest).bind fun rs hrs => ?_
      rw [hsplit]
      exact .cons hrun hrs

theorem goodLength_pos {n : Nat} (h : 0 < n) : 0 < goodLength n := by
  unfold goodLength
  split
  · omega
  · have htwo : 2 ≤ twoTo ((n.log2 + 1) / 2) := by
      have hlog : 1 ≤ n.log2 := (Nat.le_log2 (by omega)).2 (by omega)
      exact twoTo_lt (m := 0) (by omega)
    exact Nat.div_pos (htwo.trans (Nat.le_add_right _ _)) (by decide)

/-! ## Merging runs -/

section Merging

variable {sort : List α → Option (List α)}
  (hsort : eager = false → ∀ xs, Yields (Std.TransCmp cmp) (Settled cmp xs) (sort xs))
include hsort

theorem settle_yields {run : Run α} (h : Stands cmp eager xs run) :
    Yields (Std.TransCmp cmp) (Settled cmp xs) (run.settle sort) := by
  unfold Stands at h
  unfold Run.settle
  split
  · rename_i hordered
    rwa [if_pos hordered] at h
  · rename_i hwaits
    obtain ⟨rfl, heager⟩ := (if_neg hwaits).mp h
    exact hsort heager _

theorem mergeRuns_yields {room : Nat} {left right : Run α} (hl : Stands cmp eager xs left)
    (hr : Stands cmp eager ys right) :
    Yields (Std.TransCmp cmp) (Stands cmp eager (xs ++ ys))
      (mergeRuns cmp sort room left right) := by
  unfold mergeRuns
  split
  · refine (settle_yields hsort hl).bind fun as ha => ?_
    exact (settle_yields hsort hr).bind fun bs hb => ha.merge hb
  · rename_i hwait
    simp only [Bool.or_eq_true, not_or] at hwait
    obtain ⟨rfl, heager⟩ := (if_neg hwait.1.1).mp hl
    obtain ⟨rfl, -⟩ := (if_neg hwait.1.2).mp hr
    exact ⟨rfl, heager⟩

/-- The runs on a stack stand for the stretches of a list, from the bottom of the stack up. -/
inductive Piled (cmp : α → α → Ordering) (eager : Bool) : List α → List (Run α × Nat) → Prop
  | nil : Piled cmp eager [] []
  | cons {xs ys run before} (depth : Nat) : Piled cmp eager xs before → Stands cmp eager ys run →
      Piled cmp eager (xs ++ ys) ((run, depth) :: before)

/-- Collapsing the stack keeps what it stands for together with the run at hand. -/
theorem collapse_yields {room depth : Nat} {before : List (Run α × Nat)} {run : Run α}
    (hbefore : Piled cmp eager xs before) (hrun : Stands cmp eager ys run) :
    Yields (Std.TransCmp cmp)
      (fun r => ∃ xs' ys', xs ++ ys = xs' ++ ys' ∧ Piled cmp eager xs' r.1 ∧
        Stands cmp eager ys' r.2 ∧ (depth = 0 → xs' = []))
      (collapse cmp sort room depth before run) := by
  induction hbefore generalizing ys run with
  | nil => exact ⟨[], ys, rfl, .nil, hrun, fun _ => rfl⟩
  | cons d hbefore hleft ih =>
    rw [collapse]
    split
    · refine (mergeRuns_yields hsort hleft hrun).bind fun merged hmerged => ?_
      rw [List.append_assoc]
      exact ih hmerged
    · rename_i hdepth
      exact ⟨_, ys, rfl, .cons d hbefore hleft, hrun, fun h => by omega⟩

/-- All runs are merged into one that stands for the whole list. -/
theorem mergeAll_yields {room scale stop : Nat} {before : List (Run α × Nat)} {run : Run α}
    {rest : List (Run α)} (hbefore : Piled cmp eager xs before) (hrun : Stands cmp eager ys run)
    (hrest : Covers cmp eager zs rest) :
    Yields (Std.TransCmp cmp) (Stands cmp eager (xs ++ ys ++ zs))
      (mergeAll cmp sort room scale stop before run rest) := by
  induction hrest generalizing xs ys stop before run with
  | nil =>
    refine (collapse_yields hsort hbefore hrun).map fun (before', run') h => ?_
    obtain ⟨xs', ys', hsplit, -, hrun', hnil⟩ := h
    rw [List.append_nil, hsplit, hnil rfl, List.nil_append]
    exact hrun'
  | cons hnext hrest ih =>
    refine (collapse_yields hsort hbefore hrun).bind fun (before', run') h => ?_
    obtain ⟨xs', ys', hsplit, hbefore', hrun', -⟩ := h
    rw [hsplit, ← List.append_assoc]
    exact ih (.cons _ hbefore' hrun') hnext

/-- A list is sorted by its runs. -/
theorem sortRuns_yields (xs : List α) :
    Yields (Std.TransCmp cmp) (Settled cmp xs) (sortRuns cmp sort eager xs) := by
  unfold sortRuns
  by_cases hnil : xs = []
  · subst hnil
    exact (Arranges.of_sorted .nil).settled
  · have hgood := goodLength_pos (List.length_pos_of_ne_nil hnil)
    refine (runs_yields hgood (Nat.le_refl _)).bind fun rs hrs => ?_
    cases hrs with
    | nil => exact absurd rfl hnil
    | cons hfirst hrest =>
      refine (mergeAll_yields hsort .nil hfirst hrest).bind fun run hrun => ?_
      exact settle_yields hsort hrun

end Merging

end DataGrid.StableSort
