import DataGrid.Proofs.Extremes
import DataGrid.Proofs.ReportedTotals
import Mathlib.Algebra.Order.BigOperators.Group.List
import Mathlib.Algebra.Order.Ring.Int
import Mathlib.Data.List.ProdSigma
import Mathlib.Order.Bounds.Defs

/-!
# Counts of related rows

A relation links a row to those rows of another entity that agree with it on every key. Counted for
each row of a query, the linked rows are summed up to the number of linked pairs; the extremes are
those of the numbers of linked rows, in which a row without any counts as zero. No number is cut
off, since no entity in memory holds more rows than a word can count.
-/

namespace DataGrid

open Number

/-! ## Linked rows -/

/-- The value that an expression names in a row. -/
def Record.value? (row : Record) (expression : String) : Option Json := do
  row.lookup? (← Path.parse? expression).segments

namespace Relation

/-- Whether both fields of a key are there and equal, and the one of the related row is not
null. -/
def Agrees (outer inner : Record) (key : String × String) : Prop :=
  ∃ a b, inner.value? key.2 = some a ∧ outer.value? key.1 = some b ∧ a.isNull = false ∧
    a.sameValue b = true

/-- Whether a relation links a row to a row of its entity: the two agree on every key. -/
def Links (r : Relation) (outer inner : Record) : Prop := ∀ key ∈ r.keys, Agrees outer inner key

theorem agrees_iff {outer inner : Record} {key : String × String} {outerPath innerPath : Path}
    (houter : Path.parse? key.1 = some outerPath) (hinner : Path.parse? key.2 = some innerPath) :
    Agrees outer inner key ↔ Store.correlated [(innerPath, outerPath)] inner outer = true := by
  unfold Agrees Store.correlated Record.value?
  simp only [houter, hinner, Option.bind_eq_bind, Option.bind_some, List.all_cons, List.all_nil,
    Bool.and_true]
  cases inner.lookup? innerPath.segments with
  | none => simp
  | some a =>
    cases outer.lookup? outerPath.segments with
    | none => simp
    | some b => simp

/-- The paths of the keys correlate two rows exactly when the keys link them. -/
theorem links_iff {r : Relation} {pairs : List (Path × Path)} (h : r.pairs? = some pairs)
    (outer inner : Record) : r.Links outer inner ↔ Store.correlated pairs inner outer = true := by
  obtain ⟨entity, keys⟩ := r
  unfold pairs? at h
  unfold Links
  induction keys generalizing pairs with
  | nil =>
    cases h
    exact iff_of_true nofun rfl
  | cons key keys ih =>
    rw [List.mapM_cons] at h
    obtain ⟨pair, hpair, h⟩ := Option.bind_eq_some_iff.mp h
    obtain ⟨rest, hrest, h⟩ := Option.bind_eq_some_iff.mp h
    obtain ⟨innerPath, hinner, hpair⟩ := Option.bind_eq_some_iff.mp hpair
    obtain ⟨outerPath, houter, hpair⟩ := Option.bind_eq_some_iff.mp hpair
    cases hpair
    cases h
    rw [List.forall_mem_cons, agrees_iff houter hinner, ih hrest]
    unfold Store.correlated
    rw [List.all_cons, List.all_cons, List.all_nil, Bool.and_true, Bool.and_eq_true]

instance decidableAgrees (outer inner : Record) (key : String × String) :
    Decidable (Agrees outer inner key) :=
  match hinner : inner.value? key.2, houter : outer.value? key.1 with
  | some a, some b =>
    decidable_of_iff (a.isNull = false ∧ a.sameValue b = true) (by simp [Agrees, hinner, houter])
  | none, _ => .isFalse (by simp [Agrees, hinner])
  | _, none => .isFalse (by simp [Agrees, houter])

instance decidableLinks (r : Relation) (outer inner : Record) : Decidable (r.Links outer inner) :=
  inferInstanceAs (Decidable (∀ key ∈ r.keys, Agrees outer inner key))

/-- The number of rows of a list that a relation links a row to. -/
def linked (r : Relation) (related : List Record) (row : Record) : Nat :=
  related.countP (r.Links row ·)

/-- The number of pairs of a row and a related row that a relation links. -/
def linkedPairs (r : Relation) (rows related : List Record) : Nat :=
  (rows ×ˢ related).countP fun pair => r.Links pair.1 pair.2

variable {r : Relation}

/-- Counting the linked rows row by row counts the linked pairs. -/
theorem linkedPairs_eq_sum (r : Relation) (rows related : List Record) :
    r.linkedPairs rows related = (rows.map (r.linked related)).sum := by
  unfold linkedPairs
  induction rows with
  | nil => rfl
  | cons row rows ih =>
    rw [List.product_cons, List.countP_append, List.countP_map, ih, List.map_cons, List.sum_cons]
    rfl

theorem linked_le (r : Relation) (related : List Record) (row : Record) :
    r.linked related row ≤ related.length := List.countP_le_length

end Relation

/-! ## Sums of numbers that are not negative -/

theorem integerSum_append (ms ns : List Int64) :
    integerSum (ms ++ ns) = integerSum ms + integerSum ns := by
  simp [integerSum]

theorem integerSum_nonneg {ns : List Int64} (h : ∀ n ∈ ns, 0 ≤ n.toInt) : 0 ≤ integerSum ns := by
  refine List.sum_nonneg fun m hm => ?_
  obtain ⟨n, hn, rfl⟩ := List.mem_map.mp hm
  exact h n hn

/-- Where no term is negative, the running totals are no greater than the sum. -/
theorem integerSum_prefix {p ns : List Int64} (h : ∀ n ∈ ns, 0 ≤ n.toInt) (hp : p <+: ns) :
    0 ≤ integerSum p ∧ integerSum p ≤ integerSum ns := by
  obtain ⟨rest, rfl⟩ := hp
  have hfirst := integerSum_nonneg fun n hn => h n (List.mem_append_left rest hn)
  have hrest := integerSum_nonneg fun n hn => h n (List.mem_append_right p hn)
  rw [integerSum_append]
  omega

theorem Aggregate.sum_apply_nonneg {ns : List Int64} (hne : ns ≠ []) (h : ∀ n ∈ ns, 0 ≤ n.toInt)
    (hfits : fitsWord 64 (integerSum ns)) :
    ∃ n, sum.apply (ns.map .int) = .ok (.int n) ∧ n.toInt = integerSum ns := by
  have hlimit : twoTo (64 - 1) = 9223372036854775808 := rfl
  have hprefix : ∀ p, p <+: ns → fitsWord 64 (integerSum p) := by
    intro p hp
    have hbounds := integerSum_prefix h hp
    simp only [fitsWord, Bool.and_eq_true, decide_eq_true_eq] at hfits ⊢
    omega
  have hrange : ∀ p, p <+: ns → (integerSum p).natAbs < mantissaLimit := by
    intro p hp
    have hword := hprefix p hp
    simp only [fitsWord, hlimit, Bool.and_eq_true, decide_eq_true_eq] at hword
    unfold mantissaLimit
    omega
  rcases sum_apply_ints hne hrange with ⟨n, hsum, happly, -⟩ | ⟨-, hover⟩
  · exact ⟨n, happly, hsum⟩
  · exact absurd hprefix hover

/-! ## Projected counts -/

/-- Whether each entity holds no more rows than a word can count, as rows in memory always do. -/
def Store.Countable (store : Store) : Prop :=
  ∀ entity rows, store.rows entity = .ok rows → fitsWord 64 rows.length

/-- Whether a value is the integer `n`. -/
def Value.IsInt (v : Value) (n : Nat) : Prop := ∃ i, v = .int i ∧ i.toInt = n

theorem Value.IsInt.ne_null {v : Value} {n : Nat} (h : v.IsInt n) : v ≠ .null := by
  obtain ⟨i, rfl, -⟩ := h
  nofun

theorem fitsWord_of_le {m n : Nat} (hmn : m ≤ n) (h : fitsWord 64 n) : fitsWord 64 m := by
  simp only [fitsWord, Bool.and_eq_true, decide_eq_true_eq] at h ⊢
  omega

/-- Below the limit, a word counts as it should. -/
theorem toInt_wordOfCount_of_fitsWord {n : Nat} (h : fitsWord 64 n) :
    (wordOfCount n).toInt = n := by
  have hlimit : twoTo (64 - 1) = countLimit + 1 := rfl
  simp only [fitsWord, hlimit, Bool.and_eq_true, decide_eq_true_eq] at h
  rw [toInt_wordOfCount]
  omega

theorem isInt_wordOfCount {n : Nat} (h : fitsWord 64 n) : (Value.int (wordOfCount n)).IsInt n :=
  ⟨_, rfl, toInt_wordOfCount_of_fitsWord h⟩

theorem integerSum_wordOfCount {α : Type} {f : α → Nat} {as : List α}
    (h : ∀ a ∈ as, fitsWord 64 (f a)) :
    integerSum (as.map fun a => wordOfCount (f a)) = ((as.map f).sum : Nat) := by
  induction as with
  | nil => rfl
  | cons a as ih =>
    rw [List.forall_mem_cons] at h
    have hfirst : (wordOfCount (f a)).toInt = f a := toInt_wordOfCount_of_fitsWord h.1
    rw [List.map_cons, List.map_cons, List.sum_cons, Int.natCast_add, ← ih h.2, ← hfirst]
    exact List.sum_cons

namespace Store

variable {store : Store} {q : Query} {r : Relation} {pairs : List (Path × Path)}
  {rows related : List Record}

theorem length_le_of_select (h : store.select q = .ok rows) :
    ∃ stored, store.rows q.entity = .ok stored ∧ rows.length ≤ stored.length := by
  obtain ⟨stored, hstored, -, rfl⟩ := store.select_eq_ok.mp h
  exact ⟨stored, hstored, List.length_filter_le ..⟩

/-- The values that the count of a relation gives on rows. -/
theorem projectAll_linked (hpairs : r.pairs? = some pairs)
    (hrelated : store.rows r.entity = .ok related) (rows : List Record) :
    store.projectAll (.count (.mk r.entity none pairs)) rows =
      .ok ((rows.map fun row => wordOfCount (r.linked related row)).map .int) := by
  refine store.projectAll_eq_ok.mpr ?_
  rw [List.map_map, List.forall₂_map_right_iff, List.forall₂_same]
  intro row _
  have hlinked : r.linked related row =
      ((related.filter (store.satisfies none)).filter (correlated pairs · row)).length := by
    rw [store.filter_satisfies_none, ← List.countP_eq_length_filter]
    refine List.countP_congr fun inner _ => ?_
    rw [decide_eq_true_eq, Relation.links_iff hpairs]
  have hcount := store.countRows_eq_ok.mpr
    ⟨related, hrelated, fun _ _ => ⟨true, rfl⟩, congrArg wordOfCount hlinked⟩
  simp only [project, hcount, Function.comp]

theorem scalar_linked {a : Aggregate} {v : Value} (hpairs : r.pairs? = some pairs)
    (hrows : store.select q = .ok rows) (hrelated : store.rows r.entity = .ok related)
    (ha : a.apply ((rows.map fun row => wordOfCount (r.linked related row)).map .int) = .ok v) :
    store.scalar ⟨q, .count (.mk r.entity none pairs), a⟩ = .ok v := by
  refine store.scalar_of_values hrows (projectAll_linked hpairs hrelated rows) ?_
  have hkept : ∀ ns : List Int64, (ns.map Value.int).filter (!·.isNull) = ns.map .int :=
    fun _ => List.filter_eq_self.mpr (List.forall_mem_map.2 fun _ _ => rfl)
  rw [hkept]
  exact ha

/-- The extreme of the numbers of linked rows is that of one of the rows. -/
theorem extreme_linked {a : Aggregate} {wins : Ordering} (hwins : a.wins? = some wins)
    (hpairs : r.pairs? = some pairs) (hrows : store.select q = .ok rows)
    (hrelated : store.rows r.entity = .ok related) (hfits : fitsWord 64 related.length)
    (hne : rows ≠ []) :
    ∃ w, store.scalar ⟨q, .count (.mk r.entity none pairs), a⟩ = .ok w ∧
      ∃ row ∈ rows, w.IsInt (r.linked related row) ∧
        ∀ other ∈ rows,
          Ord.compare (r.linked related other : Int) (r.linked related row) ≠ wins := by
  have hword : ∀ row, (wordOfCount (r.linked related row)).toInt = r.linked related row :=
    fun row => toInt_wordOfCount_of_fitsWord (fitsWord_of_le (r.linked_le related row) hfits)
  have hcounts : (rows.map fun row => wordOfCount (r.linked related row)) ≠ [] :=
    mt List.map_eq_nil_iff.mp hne
  obtain ⟨n, hn, happly, hbest⟩ := a.apply_extreme_ints hwins hcounts
  obtain ⟨row, hrow, rfl⟩ := List.mem_map.mp hn
  refine ⟨_, scalar_linked hpairs hrows hrelated happly, row, hrow, ⟨_, rfl, hword row⟩, ?_⟩
  intro other hother
  rw [← hword other, ← hword row]
  exact hbest _ (List.mem_map_of_mem hother)

theorem exists_greatest_linked (hpairs : r.pairs? = some pairs) (hrows : store.select q = .ok rows)
    (hrelated : store.rows r.entity = .ok related) (hfits : fitsWord 64 related.length)
    (hne : rows ≠ []) :
    ∃ w m, store.scalar ⟨q, .count (.mk r.entity none pairs), .max⟩ = .ok w ∧ w.IsInt m ∧
      IsGreatest {n | ∃ row ∈ rows, r.linked related row = n} m := by
  obtain ⟨w, hw, row, hrow, hint, hbest⟩ :=
    extreme_linked (a := .max) rfl hpairs hrows hrelated hfits hne
  refine ⟨w, _, hw, hint, ⟨row, hrow, rfl⟩, ?_⟩
  rintro n ⟨other, hother, rfl⟩
  have hnot := hbest other hother
  rw [Ne, Int.compare_eq_gt] at hnot
  omega

theorem exists_least_linked (hpairs : r.pairs? = some pairs) (hrows : store.select q = .ok rows)
    (hrelated : store.rows r.entity = .ok related) (hfits : fitsWord 64 related.length)
    (hne : rows ≠ []) :
    ∃ w m, store.scalar ⟨q, .count (.mk r.entity none pairs), .min⟩ = .ok w ∧ w.IsInt m ∧
      IsLeast {n | ∃ row ∈ rows, r.linked related row = n} m := by
  obtain ⟨w, hw, row, hrow, hint, hbest⟩ :=
    extreme_linked (a := .min) rfl hpairs hrows hrelated hfits hne
  refine ⟨w, _, hw, hint, ⟨row, hrow, rfl⟩, ?_⟩
  rintro n ⟨other, hother, rfl⟩
  have hnot := hbest other hother
  rw [Ne, Int.compare_eq_lt] at hnot
  omega

theorem exists_sum_linked (hpairs : r.pairs? = some pairs) (hrows : store.select q = .ok rows)
    (hrelated : store.rows r.entity = .ok related) (hfits : fitsWord 64 related.length)
    (hne : rows ≠ []) :
    ∃ v, store.scalar ⟨q, .count (.mk r.entity none pairs), .sum⟩ = .ok v ∧ v ≠ .null ∧
      (fitsWord 64 (r.linkedPairs rows related) → v.IsInt (r.linkedPairs rows related)) := by
  have hword : ∀ row, fitsWord 64 (r.linked related row) :=
    fun row => fitsWord_of_le (r.linked_le related row) hfits
  have hsum : integerSum (rows.map fun row => wordOfCount (r.linked related row)) =
      r.linkedPairs rows related := by
    rw [r.linkedPairs_eq_sum, integerSum_wordOfCount fun row _ => hword row]
  have hnonneg : ∀ n ∈ rows.map fun row => wordOfCount (r.linked related row), 0 ≤ n.toInt := by
    intro n hn
    obtain ⟨row, -, rfl⟩ := List.mem_map.mp hn
    have hvalue : (wordOfCount (r.linked related row)).toInt = r.linked related row :=
      toInt_wordOfCount_of_fitsWord (hword row)
    omega
  have hvalues : (rows.map fun row => wordOfCount (r.linked related row)) ≠ [] :=
    mt List.map_eq_nil_iff.mp hne
  generalize hns : (rows.map fun row => wordOfCount (r.linked related row)) = ns at *
  have hnumbers : ∀ v ∈ ns.map Value.int, v.isNumber := List.forall_mem_map.2 fun _ _ => rfl
  obtain ⟨t, ht, -⟩ := Aggregate.sum_apply (mt List.map_eq_nil_iff.mp hvalues) hnumbers
  refine ⟨t.sum, scalar_linked hpairs hrows hrelated (hns ▸ ht), ?_, fun hword => ?_⟩
  · intro hnull
    have hnumber := t.sum_isNumber
    rw [hnull] at hnumber
    cases hnumber
  · rw [← hsum] at hword
    obtain ⟨n, hn, hvalue⟩ := Aggregate.sum_apply_nonneg hvalues hnonneg hword
    exact ⟨n, Except.ok.inj (ht.symm.trans hn), hvalue.trans hsum⟩

/-- **Sums of related counts count pairs.** Let every key of a relation name two paths, and let a
query select some rows. Over the counts of their related rows the sum is the number of linked pairs,
as long as that is a 64-bit word, the extremes are the greatest and the least number of rows that
one row is linked to, and the count is that of the selected rows. Over no rows the sum and the
extremes are null, and only then. -/
theorem scalar_linkedPairs (hstore : store.Countable)
    (hkeys : ∀ key ∈ r.keys, (∃ outer, Path.parse? key.1 = some outer) ∧
      ∃ inner, Path.parse? key.2 = some inner)
    (hrows : store.select q = .ok rows) (hrelated : store.rows r.entity = .ok related) :
    ∃ counted total greatest least count, r.count? = some counted ∧
      store.scalar ⟨q, .count counted, .sum⟩ = .ok total ∧
      store.scalar ⟨q, .count counted, .max⟩ = .ok greatest ∧
      store.scalar ⟨q, .count counted, .min⟩ = .ok least ∧
      store.scalar ⟨q, .count counted, .count⟩ = .ok count ∧
      (total = .null ↔ rows = []) ∧ (greatest = .null ↔ rows = []) ∧
      (least = .null ↔ rows = []) ∧ count.IsInt rows.length ∧
      (rows ≠ [] →
        (fitsWord 64 (r.linkedPairs rows related) → total.IsInt (r.linkedPairs rows related)) ∧
        (∃ m, greatest.IsInt m ∧ IsGreatest {n | ∃ row ∈ rows, r.linked related row = n} m) ∧
        ∃ m, least.IsInt m ∧ IsLeast {n | ∃ row ∈ rows, r.linked related row = n} m) := by
  obtain ⟨counted, hcounted⟩ := r.count?_isSome.mpr hkeys
  obtain ⟨pairs, hpairs, rfl⟩ := Option.map_eq_some_iff.mp hcounted
  have hfits := hstore _ _ hrelated
  obtain ⟨stored, hstored, hlength⟩ := length_le_of_select hrows
  have hcount : (Value.int (wordOfCount rows.length)).IsInt rows.length :=
    isInt_wordOfCount (fitsWord_of_le hlength (hstore _ _ hstored))
  have hcounts : store.scalar ⟨q, .count (.mk r.entity none pairs), .count⟩ =
      .ok (.int (wordOfCount rows.length)) := by
    refine scalar_linked hpairs hrows hrelated ?_
    simp only [Aggregate.apply, List.length_map]
  by_cases hempty : rows = []
  · have hnull : ∀ a : Aggregate, a.apply [] = .ok .null →
        store.scalar ⟨q, .count (.mk r.entity none pairs), a⟩ = .ok .null := by
      intro a ha
      refine scalar_linked hpairs hrows hrelated ?_
      rw [hempty]
      exact ha
    exact ⟨_, .null, .null, .null, _, hcounted, hnull .sum rfl, hnull .max rfl, hnull .min rfl,
      hcounts, iff_of_true rfl hempty, iff_of_true rfl hempty, iff_of_true rfl hempty, hcount,
      fun h => absurd hempty h⟩
  · obtain ⟨total, htotal, hne, hsum⟩ := exists_sum_linked hpairs hrows hrelated hfits hempty
    obtain ⟨greatest, m, hmax, hm, hgreatest⟩ :=
      exists_greatest_linked hpairs hrows hrelated hfits hempty
    obtain ⟨least, n, hmin, hn, hleast⟩ := exists_least_linked hpairs hrows hrelated hfits hempty
    exact ⟨_, total, greatest, least, _, hcounted, htotal, hmax, hmin, hcounts,
      iff_of_false hne hempty, iff_of_false hm.ne_null hempty, iff_of_false hn.ne_null hempty,
      hcount, fun _ => ⟨hsum, ⟨m, hm, hgreatest⟩, n, hn, hleast⟩⟩

def order (id : Int) (code : String) : Record :=
  [("customer", .object [("code", .string code)]), ("id", .number (.integer id))]

def detail (order : Json) (code : String) : Record := [("code", .string code), ("order", order)]

def sales : Store :=
  ⟨[("orders", [order 1 "A", order 2 "B"]),
    ("details", [detail (.number (.integer 1)) "A", detail (.number (.integer 1)) "A",
      detail (.number (.integer 1)) "B", detail .null "B"])]⟩

def detailsOfOrder : Relation := ⟨"details", [("id", "order"), ("customer.code", "code")]⟩

theorem scalar_linkedPairs_of_sales :
    sales.Countable ∧
    ∃ counted total least, detailsOfOrder.count? = some counted ∧
      sales.scalar ⟨{ entity := "orders" }, .count counted, .sum⟩ = .ok total ∧ total.IsInt 2 ∧
      sales.scalar ⟨{ entity := "orders" }, .count counted, .min⟩ = .ok least ∧ least ≠ .null := by
  have hcountable : sales.Countable := by
    intro entity rows h
    have hrows := rows?_of_rows sales h
    unfold rows? sales at hrows
    rw [List.lookup_cons, List.lookup_cons] at hrows
    cases ho : entity == "orders" with
    | true =>
      rw [ho] at hrows
      cases hrows
      decide
    | false =>
      rw [ho] at hrows
      cases hd : entity == "details" with
      | true =>
        rw [hd] at hrows
        cases hrows
        decide
      | false =>
        rw [hd] at hrows
        cases hrows
  have hkeys : ∀ key ∈ detailsOfOrder.keys, (∃ outer, Path.parse? key.1 = some outer) ∧
      ∃ inner, Path.parse? key.2 = some inner := by
    simp only [← Option.isSome_iff_exists]
    decide +kernel
  have hrows : sales.select { entity := "orders" } = .ok [order 1 "A", order 2 "B"] := rfl
  have hpairs : detailsOfOrder.linkedPairs [order 1 "A", order 2 "B"]
      [detail (.number (.integer 1)) "A", detail (.number (.integer 1)) "A",
        detail (.number (.integer 1)) "B", detail .null "B"] = 2 := by
    decide +kernel
  obtain ⟨counted, total, _, least, _, hcounted, htotal, -, hleast, -, -, -, hnull, -, hvalues⟩ :=
    scalar_linkedPairs hcountable hkeys hrows rfl
  have hsum := (hvalues nofun).1
  rw [hpairs] at hsum
  exact ⟨hcountable, counted, total, least, hcounted, htotal, hsum (by decide), hleast,
    mt hnull.1 nofun⟩

end Store

end DataGrid
