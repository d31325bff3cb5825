import DataGrid.Proofs.FieldOrder

/-!
# Fetched rows are sorted, and stably

Fetching arranges the selected rows: none is lost, added or changed, any two of them stand in
the order of the first clause that tells them apart, and rows that tie on every clause keep
their stored order. There is one such arrangement only. All this needs sort fields of one type
each; with a text among numbers the order of rows is not transitive.
-/

namespace DataGrid

section StableSort

variable {α : Type} {cmp : α → α → Ordering}

/-- Sorted lists of the same elements that agree on the order of tied ones are equal. -/
theorem eq_of_sorted_of_stable [Std.OrientedCmp cmp] {as bs : List α} (hperm : as.Perm bs)
    (has : as.Pairwise fun a b => cmp a b ≠ .gt) (hbs : bs.Pairwise fun a b => cmp a b ≠ .gt)
    (hties : ∀ a ∈ as, as.filter (cmp a · == .eq) = bs.filter (cmp a · == .eq)) : as = bs := by
  induction as generalizing bs with
  | nil => exact hperm.nil_eq
  | cons a as ih =>
    cases bs with
    | nil => exact hperm.eq_nil
    | cons b bs =>
      rw [List.pairwise_cons] at has hbs
      have hself : cmp a a = .eq := Std.ReflCmp.compare_self
      have hab : cmp a b = .eq := by
        obtain rfl | hb := List.mem_cons.1 (hperm.mem_iff.2 List.mem_cons_self)
        · exact hself
        obtain rfl | ha := List.mem_cons.1 (hperm.mem_iff.1 List.mem_cons_self)
        · exact hself
        have hle := has.1 b hb
        have hge := hbs.1 a ha
        have hswap : cmp b a = (cmp a b).swap := Std.OrientedCmp.eq_swap
        rw [hswap] at hge
        cases hcmp : cmp a b with
        | eq => rfl
        | lt => rw [hcmp] at hge; exact absurd rfl hge
        | gt => exact absurd hcmp hle
      -- Both heads tie with `a`, so each is the first of its list that does.
      have hheads := hties a List.mem_cons_self
      rw [List.filter_cons_of_pos (by rw [hself]; rfl), List.filter_cons_of_pos (by rw [hab]; rfl)]
        at hheads
      obtain rfl : a = b := (List.cons.inj hheads).1
      refine congrArg (a :: ·) (ih hperm.cons_inv has.2 hbs.2 fun c hc => ?_)
      have htails := hties c (List.mem_cons_of_mem a hc)
      rw [List.filter_cons, List.filter_cons] at htails
      split at htails
      · exact (List.cons.inj htails).2
      · exact htails

end StableSort

/-- Whether no clause tells two rows apart. -/
def tied (clauses : List OrderClause) (a b : Record) : Bool :=
  clauses.all fun clause => clause.compare a b == .eq

theorem tied_eq_compareRows (clauses : List OrderClause) (a b : Record) :
    tied clauses a b = (Store.compareRows clauses a b == .eq) := by
  induction clauses with
  | nil => rfl
  | cons clause clauses ih =>
    rw [Store.compareRows_cons]
    change (clause.compare a b == .eq && tied clauses a b) =
      ((clause.compare a b).then (Store.compareRows clauses a b) == .eq)
    cases clause.compare a b with
    | eq => exact ih
    | lt | gt => rfl

/-- `rows` are the selected rows in the order of the clauses, and rows that tie on every clause
stand as they were selected. -/
structure Arranged (clauses : List OrderClause) (selected rows : List Record) : Prop where
  perm : rows.Perm selected
  sorted : rows.Pairwise fun a b => firstDifference clauses a b ≠ .gt
  stable : ∀ row ∈ selected, rows.filter (tied clauses row) = selected.filter (tied clauses row)

theorem Arranged.unique {clauses : List OrderClause} {selected rows rows' : List Record}
    (h : Arranged clauses selected rows) (h' : Arranged clauses selected rows') :
    rows = rows' := by
  have hsorted := h.sorted
  have hsorted' := h'.sorted
  simp only [← Store.compareRows_eq_firstDifference] at hsorted hsorted'
  refine eq_of_sorted_of_stable (h.perm.trans h'.perm.symm) hsorted hsorted' fun row hrow => ?_
  have hselected : row ∈ selected := h.perm.mem_iff.1 hrow
  simp only [← tied_eq_compareRows]
  exact (h.stable row hselected).trans (h'.stable row hselected).symm

namespace Store

/-- Rows whose sort fields are of one type each are sorted, into their arrangement. -/
theorem exists_sortRows {selected : List Record} {clauses : List OrderClause}
    (h : ∀ clause ∈ clauses, OneTyped selected clause.path) :
    ∃ rows, sortRows clauses selected = .ok rows ∧ Arranged clauses selected rows := by
  obtain ⟨order, horder, hagree⟩ := exists_transCmp_compareRows h
  have htrans : Std.TransCmp fun a b : { row // row ∈ selected } =>
      compareRows clauses a.1 b.1 := by
    have heq : (fun a b : { row // row ∈ selected } => compareRows clauses a.1 b.1) =
        fun a b => order a.1 b.1 := funext fun a => funext fun b => hagree a.1 a.2 b.1 b.2
    rw [heq]
    exact transCmp_onFun order Subtype.val
  obtain ⟨ys, hys, harranges⟩ := StableSort.exists_stableSort
    (fun a b : { row // row ∈ selected } => compareRows clauses a.1 b.1) selected.attach
  refine ⟨ys.unattach, by unfold sortRows; rw [hys], ?_, ?_, fun row hrow => ?_⟩
  · have hperm := harranges.perm.map Subtype.val
    rwa [List.attach_map_subtype_val] at hperm
  · refine List.pairwise_map.2 (harranges.sorted.imp fun {a b} hle => ?_)
    rw [← compareRows_eq_firstDifference]
    exact Ordering.ne_gt_iff_isLE.2 hle
  · have hties : ∀ zs : List { row // row ∈ selected },
        (zs.map Subtype.val).filter (tied clauses row) = (StableSort.ties
          (fun a b => compareRows clauses a.1 b.1) ⟨row, hrow⟩ zs).map Subtype.val := by
      intro zs
      rw [List.filter_map]
      exact congrArg _ (List.filter_congr fun z _ => tied_eq_compareRows clauses row z.1)
    have hall := hties selected.attach
    rw [List.attach_map_subtype_val] at hall
    exact ((hties ys).trans (congrArg _ (harranges.stable ⟨row, hrow⟩))).trans hall.symm

/-- **Fetching sorts stably.** Where the fields that a query sorts by are of one type each among
its selected rows, fetching gives the only arrangement of these rows: the same rows, any two in
the order of the first clause that tells them apart, tied ones as they were stored. Missing and
null fields tie, and stand before all others where a clause ascends, after them where it
descends. -/
theorem fetch_arranges {store : Store} {q : Query} {selected : List Record}
    (hselect : store.select q = .ok selected)
    (htyped : ∀ clause ∈ q.order, OneTyped selected clause.path) :
    (∃ rows, store.fetch q = .ok rows ∧ Arranged q.order selected rows ∧
      ∀ rows', Arranged q.order selected rows' → rows' = rows) ∧
    ∀ (clause : OrderClause) (a b : Record),
      clause.compare b a = (clause.compare a b).swap ∧
      (clause.Blank a →
        (clause.Blank b → clause.compare a b = .eq) ∧
        (¬ clause.Blank b → clause.compare a b =
          match clause.direction with
          | .ascending => .lt
          | .descending => .gt)) := by
  obtain ⟨rows, hrows, harranged⟩ := exists_sortRows htyped
  refine ⟨⟨rows, (store.fetch_eq hselect).trans hrows, harranged, fun rows' hrows' => ?_⟩, ?_⟩
  · exact hrows'.unique harranged
  · intro clause a b
    exact ⟨Std.OrientedCmp.eq_swap, clause.compare_blank⟩

def invoice (id : String) (fields : Record) : Record := ("ID", .string id) :: fields

def named (name : Json) : Json := .object [("Name", name)]

/-- Invoices of which two tie, one has no name, and one has no field to sort by. -/
def invoices : List Record :=
  [invoice "1" [("Customer", named (.string "B")), ("Paid", .bool true)],
    invoice "2" [("Customer", named (.string "A")), ("Paid", .bool false)],
    invoice "3" [("Customer", named .null), ("Paid", .bool false)],
    invoice "4" [("Paid", .bool true), ("Customer", named (.string "B"))],
    invoice "5" []]

/-- The paid invoices first, and by customers. -/
def paidFirst : Query where
  entity := "invoices"
  order := [⟨⟨["Paid"]⟩, .descending⟩, ⟨⟨["Customer", "Name"]⟩, .ascending⟩]

def invoiceBook : Store := ⟨[("invoices", invoices)]⟩

theorem fetch_arranges_invoices :
    invoiceBook.select paidFirst = .ok invoices ∧
      (∀ clause ∈ paidFirst.order, OneTyped invoices clause.path) ∧
      invoiceBook.fetch paidFirst =
        .ok [invoices[0], invoices[3], invoices[2], invoices[1], invoices[4]] := by
  have htyped : ∀ clause ∈ paidFirst.order, OneTyped invoices clause.path := by
    unfold paidFirst invoices OneTyped
    simp only [List.forall_mem_cons]
    refine ⟨⟨.bool, ?_, ?_, ?_, ?_, ?_, ?_⟩, ⟨.string, ?_, ?_, ?_, ?_, ?_, ?_⟩, ?_⟩
    all_goals first
      | rintro v u ⟨⟩ ⟨⟩
        rfl
      | nofun
  have harranged : Arranged paidFirst.order invoices
      [invoices[0], invoices[3], invoices[2], invoices[1], invoices[4]] := by
    refine ⟨?_, by decide, ?_⟩
    · exact ((List.reverse_perm [invoices[1], invoices[2], invoices[3]]).append_right _).cons _
    · unfold invoices
      simp only [List.forall_mem_cons]
      exact ⟨rfl, rfl, rfl, rfl, rfl, nofun⟩
  have hselect : invoiceBook.select paidFirst = .ok invoices := rfl
  obtain ⟨⟨rows, hrows, -, honly⟩, -⟩ := fetch_arranges hselect htyped
  rw [honly _ harranged]
  exact ⟨hselect, htyped, hrows⟩

end Store

end DataGrid
