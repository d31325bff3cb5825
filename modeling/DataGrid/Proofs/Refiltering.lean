import DataGrid.Proofs.Selection

/-!
# Filtering again

A predicate means what the list of its conditions means, read from left to right: the
first that does not hold decides, and an error is one that does not hold. So a query
restricted by one more predicate goes through the rows of the query in their order and
asks that predicate alone. It reports the first error met there, and it adds no row and
moves none.
-/

namespace DataGrid

/-- The first answer that is not yes; yes if there is none. -/
def firstRefusal {ε : Type} (answers : List (Except ε Bool)) : Except ε Bool :=
  (answers.find? (!affirmed ·)).getD (.ok true)

theorem firstRefusal_cons {ε : Type} (answer : Except ε Bool) (answers : List (Except ε Bool)) :
    firstRefusal (answer :: answers) =
      match answer with
      | .error e => .error e
      | .ok false => .ok false
      | .ok true => firstRefusal answers := by
  unfold firstRefusal
  rw [List.find?_cons]
  rcases answer with e | b
  · rfl
  · cases b <;> rfl

section Keep

variable {ε α : Type} {p q r : α → Except ε Bool}

theorem filterAuxM_eq_keep (as acc : List α) :
    List.filterAuxM p as acc = (keep p as).map (·.reverse ++ acc) := by
  induction as generalizing acc with
  | nil => rfl
  | cons a as ih =>
    rw [List.filterAuxM]
    rcases ha : p a with e | b
    · simp only [keep, ha]
      rfl
    · change List.filterAuxM p as (bif b then a :: acc else acc) = _
      rw [ih]
      cases b with
      | false => simp only [keep, ha, cond_false]
      | true =>
        simp only [keep, ha, cond_true]
        cases keep p as with
        | error e => rfl
        | ok rest => simp [Except.map]

/-- Keeping elements is the library's filter for conditions that may fail. -/
theorem keep_eq_filterM (as : List α) : keep p as = as.filterM p := by
  change _ = List.filterAuxM p as [] >>= fun kept => pure kept.reverse
  rw [filterAuxM_eq_keep]
  cases keep p as with
  | error e => rfl
  | ok rest => simp [Except.map, bind, Except.bind, pure, Except.pure]

theorem sublist_of_keep {as bs : List α} (h : keep p as = .ok bs) : bs.Sublist as := by
  have hbs := (keep_eq_ok.mp h).2
  rw [hbs]
  exact List.filter_sublist

/-- Where a first condition has an answer everywhere, keeping by both conditions is keeping by
the second what the first one leaves. -/
theorem keep_of_guard {as : List α} (hp : ∀ a ∈ as, ∃ b, p a = .ok b)
    (hr : ∀ a, r a = match p a with
      | .error e => .error e
      | .ok false => .ok false
      | .ok true => q a) :
    keep r as = keep q (as.filter fun a => affirmed (p a)) := by
  induction as with
  | nil => rfl
  | cons a as ih =>
    obtain ⟨b, hb⟩ := hp a List.mem_cons_self
    have hrest := ih fun x hx => hp x (List.mem_cons_of_mem a hx)
    have ha := hr a
    rw [List.filter_cons, hb]
    rw [hb] at ha
    cases b with
    | false => simp only [keep, ha, hrest, affirmed_ok, Bool.false_eq_true, if_false]
    | true => simp only [keep, ha, hrest, affirmed_ok, if_true]

end Keep

/-! ## The conditions of a predicate -/

namespace Predicate

def isConjunction : Predicate → Bool
  | all _ => true
  | _ => false

mutual

theorem not_isConjunction_of_mem_conjuncts :
    ∀ (p : Predicate) {c : Predicate}, c ∈ p.conjuncts → c.isConjunction = false
  | .all parts, c, h => by
    rw [conjuncts] at h
    exact not_isConjunction_of_mem_conjunctsOfAll parts h
  | .compare path kind op value, c, h => by
    rw [conjuncts, List.mem_singleton] at h
    rw [h]
    rfl
  | .matches path op pattern, c, h => by
    rw [conjuncts, List.mem_singleton] at h
    rw [h]
    rfl
  | .count counted op bound, c, h => by
    rw [conjuncts, List.mem_singleton] at h
    rw [h]
    rfl

theorem not_isConjunction_of_mem_conjunctsOfAll :
    ∀ (ps : List Predicate) {c : Predicate}, c ∈ conjunctsOfAll ps → c.isConjunction = false
  | [], c, h => by
    rw [conjunctsOfAll] at h
    cases h
  | p :: ps, c, h => by
    rw [conjunctsOfAll] at h
    rcases List.mem_append.mp h with hp | hps
    · exact not_isConjunction_of_mem_conjuncts p hp
    · exact not_isConjunction_of_mem_conjunctsOfAll ps hps

end

end Predicate

namespace Store

variable (store : Store)

theorem holdsAll_eq_firstRefusal (ps : List Predicate) (row : Record) :
    store.holdsAll ps row = firstRefusal (ps.map (store.holds · row)) := by
  induction ps with
  | nil => rfl
  | cons p ps ih =>
    rw [List.map_cons, firstRefusal_cons, ← ih]
    simp only [holdsAll]
    rcases store.holds p row with e | b
    · rfl
    · cases b <;> rfl

mutual

-- Flattening follows the nesting of the conjunctions, so both halves go by recursion on it.
theorem holdsAll_conjuncts :
    ∀ (p : Predicate) (row : Record), store.holdsAll p.conjuncts row = store.holds p row
  | .all parts, row => by
    rw [Predicate.conjuncts, holdsAll_conjunctsOfAll parts row]
    simp only [holds]
  | .compare path kind op value, row => by
    rw [Predicate.conjuncts]
    exact store.holdsAll_singleton _ row
  | .matches path op pattern, row => by
    rw [Predicate.conjuncts]
    exact store.holdsAll_singleton _ row
  | .count counted op bound, row => by
    rw [Predicate.conjuncts]
    exact store.holdsAll_singleton _ row

theorem holdsAll_conjunctsOfAll :
    ∀ (ps : List Predicate) (row : Record),
      store.holdsAll (Predicate.conjunctsOfAll ps) row = store.holdsAll ps row
  | [], row => by rw [Predicate.conjunctsOfAll]
  | p :: ps, row => by
    rw [Predicate.conjunctsOfAll, holdsAll_append, holdsAll_conjuncts p row,
      holdsAll_conjunctsOfAll ps row]
    rcases hp : store.holds p row with e | b
    · simp only [holdsAll, hp]
    · cases b <;> simp only [holdsAll, hp]

end

/-- A predicate has the first refusal of its conditions. -/
theorem holds_eq_firstRefusal (p : Predicate) (row : Record) :
    store.holds p row = firstRefusal (p.conjuncts.map (store.holds · row)) := by
  rw [← holdsAll_conjuncts, holdsAll_eq_firstRefusal]

/-! ## One more predicate -/

theorem fetch_unordered {s : Query} (hs : s.order = []) : store.fetch s = store.select s := by
  unfold fetch
  rw [hs]
  cases store.select s with
  | error e => rfl
  | ok rows => exact sortRows_nil rows

theorem fetch_filtered {s : Query} (hs : s.order = []) {rows : List Record}
    (h : store.fetch s = .ok rows) (p : Predicate) :
    store.fetch (s.filtered (some p)) = keep (store.holds p) rows := by
  have hf : (s.filtered (some p)).order = [] := hs
  rw [fetch_unordered store hs] at h
  rw [fetch_unordered store hf]
  obtain ⟨stored, hstored, hanswers, rfl⟩ := store.select_eq_ok.mp h
  have hentity : store.rows (s.filtered (some p)).entity = .ok stored := hstored
  unfold select
  rw [hentity]
  refine keep_of_guard hanswers fun row => ?_
  change store.holdsOption (Predicate.andOption s.predicate (some p)) row = _
  rw [holdsOption_andOption]
  rcases store.holdsOption s.predicate row with e | b
  · rfl
  · cases b <;> rfl

/-- **Conjunction and filtering again preserve meaning.** A predicate has the first refusal of its
conditions, errors included, and a conjunction asks its second operand only where the first one
holds. So an unordered query with one more predicate keeps those of its rows that satisfy the
predicate, in their order, up to the first error. -/
theorem conjunction_preserves_meaning :
    (∀ (p : Predicate) (row : Record),
      (∀ c ∈ p.conjuncts, c.isConjunction = false) ∧
        store.holds p row = firstRefusal (p.conjuncts.map (store.holds · row))) ∧
    (∀ (p q : Predicate) (row : Record),
      store.holds (p.and q) row =
        match store.holds p row with
        | .error e => .error e
        | .ok false => .ok false
        | .ok true => store.holds q row) ∧
    ∀ (s : Query) (rows : List Record) (p : Predicate), s.order = [] → store.fetch s = .ok rows →
      store.fetch (s.filtered (some p)) = rows.filterM (store.holds p) ∧
        ∀ kept, store.fetch (s.filtered (some p)) = .ok kept → kept.Sublist rows := by
  refine ⟨fun p row => ⟨?_, store.holds_eq_firstRefusal p row⟩, store.holds_and, ?_⟩
  · intro c hc
    exact p.not_isConjunction_of_mem_conjuncts hc
  · intro s rows p hs h
    have hfetch := store.fetch_filtered hs h p
    refine ⟨hfetch.trans (keep_eq_filterM rows), ?_⟩
    intro kept hkept
    exact sublist_of_keep (hfetch.symm.trans hkept)

/-- Two orders, and no lines of them. -/
def orderBook : Store := ⟨[("orders", [[("Qty", .number (.integer 5))],
  [("Qty", .number (.integer 2))]])]⟩

def allOrders : Query := { entity := "orders" }

/-- An order of more than so many pieces that has lines, between empty and nested conjunctions. -/
def withLinesOver (bound : Int64) : Predicate :=
  .all [.all [], .all [.compare ⟨["Qty"]⟩ .int .greaterThan (.int bound), .all []],
    .count (.mk "lines" none []) .greaterThan 0]

/-- That there are no lines is an error on the first order that is large enough, and is not asked
where none is. -/
theorem conjunction_preserves_meaning_of_orders :
    allOrders.order = [] ∧
      orderBook.fetch allOrders =
        .ok [[("Qty", .number (.integer 5))], [("Qty", .number (.integer 2))]] ∧
      orderBook.fetch (allOrders.filtered (some (withLinesOver 4))) =
        .error (.unknownEntity "lines") ∧
      orderBook.fetch (allOrders.filtered (some (withLinesOver 9))) = .ok [] := by
  have hall : orderBook.fetch allOrders =
      .ok [[("Qty", .number (.integer 5))], [("Qty", .number (.integer 2))]] :=
    (orderBook.fetch_unordered rfl).trans rfl
  have hover : ∀ bound, orderBook.fetch (allOrders.filtered (some (withLinesOver bound))) =
      List.filterM (orderBook.holds (withLinesOver bound)) _ := fun bound =>
    (orderBook.conjunction_preserves_meaning.2.2 allOrders _ (withLinesOver bound) rfl hall).1
  exact ⟨rfl, hall, (hover 4).trans rfl, (hover 9).trans rfl⟩

end Store

end DataGrid
