import DataGrid.Filter.Strategy
import DataGrid.Proofs.Refiltering
import DataGrid.Proofs.SameValue
import Mathlib.Data.List.Perm.Basic

/-!
# Duplicate rows

The predicates for duplicated and for not duplicated values count the rows of the base query that
share the outer row's value at a path. Each row of the base query counts itself once, unless its
value is null or missing. So the two predicates part the rows: a row is duplicated exactly when
its value stands at another position too, and then its partners are duplicated as well.
-/

namespace DataGrid

open Number

/-- Whether two rows have equal values at a path, and not null. -/
def Record.Shares (path : Path) (a b : Record) : Prop :=
  ∃ v w, a.lookup? path.segments = some v ∧ b.lookup? path.segments = some w ∧
    v.isNull = false ∧ v.sameValue w = true

/-- Whether a row has a value at a path that is not null. -/
def Record.HasValue (path : Path) (row : Record) : Prop :=
  ∃ v, row.lookup? path.segments = some v ∧ v.isNull = false

/-- Whether the value at a position stands at another position, too. -/
def Duplicated (path : Path) (rows : List Record) (i : Fin rows.length) : Prop :=
  ∃ j : Fin rows.length, j ≠ i ∧ Record.Shares path rows[i] rows[j]

namespace Record

variable {path : Path} {a b : Record}

theorem Shares.symm (h : Shares path a b) : Shares path b a := by
  obtain ⟨v, w, hv, hw, hnull, hsame⟩ := h
  refine ⟨w, v, hw, hv, ?_, ?_⟩
  · rw [← Json.isNull_eq_of_sameValue hsame]
    exact hnull
  · rw [Json.sameValue_comm]
    exact hsame

theorem shares_self : Shares path a a ↔ HasValue path a := by
  constructor
  · rintro ⟨v, -, hv, -, hnull, -⟩
    exact ⟨v, hv, hnull⟩
  · rintro ⟨v, hv, hnull⟩
    exact ⟨v, v, hv, hv, hnull, v.sameValue_self⟩

theorem Shares.hasValue (h : Shares path a b) : HasValue path a := by
  obtain ⟨v, -, hv, -, hnull, -⟩ := h
  exact ⟨v, hv, hnull⟩

theorem correlated_eq_true :
    Store.correlated [(path, path)] a b = true ↔ Shares path a b := by
  unfold Store.correlated Shares
  cases hv : a.lookup? path.segments with
  | none => simp [hv]
  | some v =>
    cases hw : b.lookup? path.segments with
    | none => simp [hv, hw]
    | some w => simp [hv, hw]

end Record

/-- A condition that holds at one position holds twice exactly when it holds at another. -/
theorem one_lt_countP_iff {α : Type} {p : α → Bool} {as : List α} {i : Nat} (hi : i < as.length)
    (h : p as[i] = true) : 1 < as.countP p ↔ ∃ j, ∃ hj : j < as.length, j ≠ i ∧ p as[j] = true := by
  have hcount : as.countP p = (as.eraseIdx i).countP p + 1 := by
    rw [← (List.getElem_cons_eraseIdx_perm hi).countP_eq p, List.countP_cons_of_pos h]
  have hrest : 1 < as.countP p ↔ 0 < (as.eraseIdx i).countP p := by omega
  rw [hrest, List.countP_pos_iff]
  constructor
  · rintro ⟨a, ha, hp⟩
    obtain ⟨j, hj, hne, rfl⟩ := List.mem_eraseIdx_iff_getElem.1 ha
    exact ⟨j, hj, hne, hp⟩
  · rintro ⟨j, hj, hne, hp⟩
    exact ⟨as[j], List.mem_eraseIdx_iff_getElem.2 ⟨j, hj, hne, rfl⟩, hp⟩

theorem Comparison.holds_count (n : Nat) (duplicated : Bool) :
    (if duplicated then Comparison.greaterThan else Comparison.lessOrEqual).holds
      (some (Ord.compare (wordOfCount n).toInt (1 : Int64).toInt)) =
        (decide (1 < n) == duplicated) := by
  have hone : (1 : Int64).toInt = 1 := by decide
  have hlimit : countLimit = 9223372036854775807 := rfl
  rw [hone, toInt_wordOfCount]
  -- A count beyond the words is cut off far above one.
  obtain ⟨k, hk⟩ : ∃ k, k = min n countLimit := ⟨_, rfl⟩
  rw [← hk]
  by_cases h : 1 < n
  · have hgt : Ord.compare (k : Int) 1 = .gt := by
      rw [Int.compare_eq_gt]
      omega
    cases duplicated <;> simp [Comparison.holds, hgt, h]
  · have hle : Ord.compare (k : Int) 1 ≠ .gt := by
      rw [Ne, Int.compare_eq_gt]
      omega
    cases duplicated <;> simp [Comparison.holds, hle, h]

namespace Store

variable (store : Store)

theorem select_of_fetch_unordered {q : Query} {rows : List Record}
    (h : store.fetch (q.ordered []) = .ok rows) : store.select q = .ok rows := by
  rw [← store.select_ordered q [], ← store.fetch_unordered rfl]
  exact h

/-- The count of a row's value runs over the rows of the base query. -/
theorem countRows_sameValue {ctx : Context} {rows : List Record}
    (h : store.select ctx.base = .ok rows) (path : Path) (outer : Record) :
    store.countRows (ctx.countSameValue path) outer =
      .ok (wordOfCount (rows.countP (correlated [(path, path)] · outer))) := by
  obtain ⟨stored, hstored, hanswers, rfl⟩ := store.select_eq_ok.mp h
  refine store.countRows_eq_ok.mpr ⟨stored, hstored, hanswers, ?_⟩
  exact congrArg wordOfCount List.countP_eq_length_filter

theorem holds_duplicatePredicate {ctx : Context} {rows : List Record}
    (h : store.select ctx.base = .ok rows) (path : Path) (duplicated : Bool) (row : Record) :
    store.holds (Strategy.duplicatePredicate ctx path duplicated) row =
      .ok (decide (1 < rows.countP (correlated [(path, path)] · row)) == duplicated) := by
  unfold Strategy.duplicatePredicate
  rw [holds, countRows_sameValue store h]
  exact congrArg Except.ok (Comparison.holds_count _ duplicated)

/-- A row of the base query counts itself, and so its count passes one exactly when its value
stands at another position. -/
theorem one_lt_count_iff_duplicated {rows : List Record} (path : Path) (i : Fin rows.length) :
    1 < rows.countP (correlated [(path, path)] · rows[i]) ↔ Duplicated path rows i := by
  by_cases hvalue : Record.HasValue path rows[i]
  · have hself : correlated [(path, path)] rows[i] rows[i] = true :=
      Record.correlated_eq_true.2 (Record.shares_self.2 hvalue)
    rw [one_lt_countP_iff (p := (correlated [(path, path)] · rows[i])) i.isLt hself]
    constructor
    · rintro ⟨j, hj, hne, hshares⟩
      exact ⟨⟨j, hj⟩, Fin.ne_of_val_ne hne, (Record.correlated_eq_true.1 hshares).symm⟩
    · rintro ⟨j, hne, hshares⟩
      exact ⟨j, j.isLt, Fin.val_ne_of_ne hne, Record.correlated_eq_true.2 hshares.symm⟩
  · have hnone : rows.countP (correlated [(path, path)] · rows[i]) = 0 := by
      rw [List.countP_eq_zero]
      intro inner _ hinner
      exact hvalue (Record.correlated_eq_true.1 hinner).symm.hasValue
    rw [hnone]
    constructor
    · intro h
      omega
    · rintro ⟨j, -, hshares⟩
      exact absurd hshares.hasValue hvalue

/-- Each row of the base query satisfies one of the two predicates and not the other. -/
theorem holds_duplicate_iff {ctx : Context} {rows : List Record}
    (h : store.select ctx.base = .ok rows) (path : Path) (i : Fin rows.length) :
    ∃ b : Bool, (b = true ↔ Duplicated path rows i) ∧
      store.holds (Strategy.duplicatePredicate ctx path true) rows[i] = .ok b ∧
      store.holds (Strategy.duplicatePredicate ctx path false) rows[i] = .ok (!b) := by
  have hcount := one_lt_count_iff_duplicated path i
  refine ⟨decide (1 < rows.countP (correlated [(path, path)] · rows[i])),
    decide_eq_true_iff.trans hcount, ?_, ?_⟩
  · rw [store.holds_duplicatePredicate h]
    simp
  · rw [store.holds_duplicatePredicate h]
    simp

theorem duplicated_of_shares {path : Path} {rows : List Record} {i j : Fin rows.length}
    (hi : Duplicated path rows i) (h : Record.Shares path rows[i] rows[j]) :
    Duplicated path rows j := by
  by_cases hij : i = j
  · exact hij ▸ hi
  · exact ⟨i, hij, h.symm⟩

/-- The queries of the two predicates divide the rows of the base query between them. -/
theorem fetch_duplicate_perm {ctx : Context} {rows : List Record}
    (h : store.fetch (ctx.base.ordered []) = .ok rows) (path : Path) :
    ∃ kept left,
      store.fetch ((ctx.base.ordered []).filtered
        (some (Strategy.duplicatePredicate ctx path true))) = .ok kept ∧
      store.fetch ((ctx.base.ordered []).filtered
        (some (Strategy.duplicatePredicate ctx path false))) = .ok left ∧
      (kept ++ left).Perm rows := by
  have hselect := store.select_of_fetch_unordered h
  have hkept : ∀ duplicated : Bool,
      store.fetch ((ctx.base.ordered []).filtered
        (some (Strategy.duplicatePredicate ctx path duplicated))) =
      .ok (rows.filter fun row =>
        decide (1 < rows.countP (correlated [(path, path)] · row)) == duplicated) := by
    intro duplicated
    rw [store.fetch_filtered rfl h, keep_eq_ok]
    refine ⟨fun row _ => ⟨_, store.holds_duplicatePredicate hselect path duplicated row⟩, ?_⟩
    simp only [store.holds_duplicatePredicate hselect, affirmed_ok]
  refine ⟨_, _, hkept true, hkept false, ?_⟩
  have hparted := List.filter_append_perm
    (fun row => decide (1 < rows.countP (correlated [(path, path)] · row))) rows
  simpa only [beq_true, beq_false] using hparted

/-- **Duplicate detection partitions the grid.** Where the unordered base query gives rows, both
duplicate checks on a path have an answer on each row, and opposite ones. A row is duplicated
exactly when its value at the path is there, is not null, and is equal to the value at another
position. So a row without a value is not duplicated, the partners of a duplicated row are, and
the two restricted queries divide the rows between them. -/
theorem duplicates_partition {ctx : Context} {rows : List Record}
    (h : store.fetch (ctx.base.ordered []) = .ok rows) (s : Strategy) (path : Path)
    (v w : Option Value) :
    ∃ duplicated unique : Predicate,
      s.predicateOn ctx path .isDuplicated v = .ok duplicated ∧
      s.predicateOn ctx path .isNotDuplicated w = .ok unique ∧
      (∀ i : Fin rows.length, ∃ b : Bool, (b = true ↔ Duplicated path rows i) ∧
        store.holds duplicated rows[i] = .ok b ∧ store.holds unique rows[i] = .ok (!b)) ∧
      (∀ i : Fin rows.length, ¬ Record.HasValue path rows[i] →
        store.holds duplicated rows[i] = .ok false) ∧
      (∀ i j : Fin rows.length, store.holds duplicated rows[i] = .ok true →
        Record.Shares path rows[i] rows[j] → store.holds duplicated rows[j] = .ok true) ∧
      ∃ kept left, store.fetch ((ctx.base.ordered []).filtered (some duplicated)) = .ok kept ∧
        store.fetch ((ctx.base.ordered []).filtered (some unique)) = .ok left ∧
        (kept ++ left).Perm rows := by
  have hselect := store.select_of_fetch_unordered h
  have hanswer := store.holds_duplicate_iff hselect path
  refine ⟨Strategy.duplicatePredicate ctx path true, Strategy.duplicatePredicate ctx path false,
    rfl, rfl, hanswer, ?_, ?_, store.fetch_duplicate_perm h path⟩
  · intro i hvalue
    obtain ⟨b, hb, hholds, -⟩ := hanswer i
    have hnot : ¬ b = true := by
      intro htrue
      obtain ⟨j, -, hshares⟩ := hb.1 htrue
      exact hvalue hshares.hasValue
    rw [hholds, Bool.eq_false_iff.2 hnot]
  · intro i j hi hshares
    obtain ⟨b, hb, hholds, -⟩ := hanswer i
    obtain ⟨b', hb', hholds', -⟩ := hanswer j
    rw [hi] at hholds
    have htrue : b' = true :=
      hb'.2 (duplicated_of_shares (hb.1 (Except.ok.inj hholds).symm) hshares)
    rw [hholds', htrue]

/-- A city written twice, a city of its own, a null, and a city that the base query leaves out. -/
def customers : Store := ⟨[("customers", [[("City", .string "Oslo"), ("Open", .bool true)],
  [("City", .null), ("Open", .bool true)], [("City", .string "Oslo"), ("Open", .bool true)],
  [("City", .string "Bergen"), ("Open", .bool true)],
  [("City", .string "Bergen"), ("Open", .bool false)]])]⟩

/-- The customers that are open. -/
def openCustomers : Context :=
  ⟨{ entity := "customers", predicate := some (.compare ⟨["Open"]⟩ .bool .equal (.bool true)) }⟩

theorem duplicates_partition_of_customers :
    ∃ rows, ∃ hrows : rows.length = 4, customers.fetch (openCustomers.base.ordered []) = .ok rows ∧
      customers.holds (Strategy.duplicatePredicate openCustomers ⟨["City"]⟩ true) rows[0] =
        .ok true ∧
      customers.holds (Strategy.duplicatePredicate openCustomers ⟨["City"]⟩ true) rows[1] =
        .ok false ∧
      customers.holds (Strategy.duplicatePredicate openCustomers ⟨["City"]⟩ true) rows[2] =
        .ok true ∧
      customers.holds (Strategy.duplicatePredicate openCustomers ⟨["City"]⟩ false) rows[3] =
        .ok true := by
  let rows : List Record := [[("City", .string "Oslo"), ("Open", .bool true)],
    [("City", .null), ("Open", .bool true)], [("City", .string "Oslo"), ("Open", .bool true)],
    [("City", .string "Bergen"), ("Open", .bool true)]]
  have hfetch : customers.fetch (openCustomers.base.ordered []) = .ok rows :=
    (customers.fetch_unordered rfl).trans rfl
  obtain ⟨duplicated, unique, hduplicated, hunique, hanswer, hblank, hpartner, -⟩ :=
    customers.duplicates_partition hfetch ⟨.text, Operator.textual⟩ ⟨["City"]⟩ none none
  cases hduplicated
  cases hunique
  have hshares : Record.Shares ⟨["City"]⟩ rows[0] rows[2] :=
    ⟨.string "Oslo", .string "Oslo", rfl, rfl, rfl, rfl⟩
  have hfirst : customers.holds (Strategy.duplicatePredicate openCustomers ⟨["City"]⟩ true)
      rows[0] = .ok true := by
    obtain ⟨b, hb, hholds, -⟩ := hanswer 0
    rw [hb.2 ⟨2, by decide, hshares⟩] at hholds
    exact hholds
  have hnull : ¬ Record.HasValue ⟨["City"]⟩ rows[1] := by
    rintro ⟨v, hv, hnull⟩
    cases hv
    cases hnull
  refine ⟨rows, rfl, hfetch, hfirst, hblank 1 hnull, hpartner 0 2 hfirst hshares, ?_⟩
  obtain ⟨b, hb, -, hholds⟩ := hanswer 3
  have hbergen : ¬ Duplicated ⟨["City"]⟩ rows 3 := by
    rintro ⟨j, hj, v, w, hv, hw, -, hsame⟩
    cases hv
    match j with
    | 0 | 1 | 2 => cases hw; cases hsame
    | 3 => exact hj rfl
  rw [Bool.eq_false_iff.2 fun htrue => hbergen (hb.1 htrue)] at hholds
  exact hholds

end Store

end DataGrid
