import DataGrid.Proofs.RowTotals
import Mathlib.Data.List.Perm.Basic

/-!
# Stores with their rows in another order

Entities may keep their rows in any order. Whether a row satisfies a predicate, how many rows are
counted for it and what is projected from it does not depend on that order. So a query that a store
answers is answered after any reordering of its rows, and selects the same rows and projects the
same values in another order.
-/

namespace DataGrid.Store

open Number

/-- Whether another store has the same entities, each with the same rows in any order. -/
def Reordered (store other : Store) : Prop :=
  ∀ entity, Option.Rel List.Perm (store.rows? entity) (other.rows? entity)

variable {store other : Store}

theorem Reordered.rows (h : store.Reordered other) {entity : String} {rows : List Record}
    (hrows : store.rows entity = .ok rows) :
    ∃ rows', other.rows entity = .ok rows' ∧ rows.Perm rows' := by
  have hrel := h entity
  rw [store.rows?_of_rows hrows] at hrel
  unfold Store.rows
  cases hrows' : other.rows? entity with
  | none =>
    rw [hrows'] at hrel
    cases hrel
  | some rows' =>
    rw [hrows'] at hrel
    cases hrel with
    | some hperm => exact ⟨rows', rfl, hperm⟩

/-- Where two stores give the same answers on the rows of an entity, they keep the same rows. -/
theorem filter_perm {p : Option Predicate} {rows rows' : List Record} (hperm : rows.Perm rows')
    (hanswers : ∀ row ∈ rows, ∃ b, store.holdsOption p row = .ok b)
    (hagree : ∀ row b, store.holdsOption p row = .ok b → other.holdsOption p row = .ok b) :
    (∀ row ∈ rows', ∃ b, other.holdsOption p row = .ok b) ∧
      (rows.filter (store.satisfies p)).Perm (rows'.filter (other.satisfies p)) := by
  constructor
  · intro row hrow
    obtain ⟨b, hb⟩ := hanswers row (hperm.mem_iff.2 hrow)
    exact ⟨b, hagree row b hb⟩
  · have hsame : rows.filter (store.satisfies p) = rows.filter (other.satisfies p) := by
      refine List.filter_congr fun row hrow => ?_
      obtain ⟨b, hb⟩ := hanswers row hrow
      unfold satisfies
      rw [hb, hagree row b hb]
    rw [hsame]
    exact hperm.filter _

mutual

theorem holds_reordered (h : store.Reordered other) :
    ∀ (p : Predicate) {row : Record} {b : Bool}, store.holds p row = .ok b →
      other.holds p row = .ok b
  | .compare path kind op value, row, b, hp => by
    simp only [holds] at hp ⊢
    exact hp
  | .matches path op pattern, row, b, hp => by
    simp only [holds] at hp ⊢
    exact hp
  | .count counted op bound, row, b, hp => by
    simp only [holds] at hp ⊢
    cases hc : store.countRows counted row with
    | error e => rw [hc] at hp; cases hp
    | ok n => rw [hc] at hp; rw [countRows_reordered h counted hc]; exact hp
  | .all parts, row, b, hp => by
    simp only [holds] at hp ⊢
    exact holdsAll_reordered h parts hp

theorem holdsAll_reordered (h : store.Reordered other) :
    ∀ (ps : List Predicate) {row : Record} {b : Bool}, store.holdsAll ps row = .ok b →
      other.holdsAll ps row = .ok b
  | [], row, b, hp => by
    simp only [holdsAll] at hp ⊢
    exact hp
  | p :: ps, row, b, hp => by
    simp only [holdsAll] at hp ⊢
    rcases hfirst : store.holds p row with e | first
    · rw [hfirst] at hp; cases hp
    · rw [hfirst] at hp
      rw [holds_reordered h p hfirst]
      cases first with
      | false => exact hp
      | true => exact holdsAll_reordered h ps hp

theorem holdsOption_reordered (h : store.Reordered other) :
    ∀ (p : Option Predicate) {row : Record} {b : Bool}, store.holdsOption p row = .ok b →
      other.holdsOption p row = .ok b
  | none, row, b, hp => by
    simp only [holdsOption] at hp ⊢
    exact hp
  | some p, row, b, hp => by
    simp only [holdsOption] at hp ⊢
    exact holds_reordered h p hp

theorem countRows_reordered (h : store.Reordered other) :
    ∀ (counted : CorrelatedCount) {row : Record} {n : Int64}, store.countRows counted row = .ok n →
      other.countRows counted row = .ok n
  | .mk entity filter correlations, row, n, hc => by
    obtain ⟨rows, hrows, hanswers, rfl⟩ := store.countRows_eq_ok.mp hc
    obtain ⟨rows', hrows', hperm⟩ := h.rows hrows
    obtain ⟨hanswers', hkept⟩ :=
      filter_perm hperm hanswers fun _ _ => holdsOption_reordered h filter
    refine other.countRows_eq_ok.mpr ⟨rows', hrows', hanswers', ?_⟩
    exact congrArg wordOfCount (hkept.filter _).length_eq

end

section Answers

variable (h : store.Reordered other)

include h

/-- A query selects the same rows in another order. -/
theorem select_reordered {q : Query} {rows : List Record} (hq : store.select q = .ok rows) :
    ∃ rows', other.select q = .ok rows' ∧ rows.Perm rows' := by
  obtain ⟨stored, hstored, hanswers, rfl⟩ := store.select_eq_ok.mp hq
  obtain ⟨stored', hstored', hperm⟩ := h.rows hstored
  obtain ⟨hanswers', hkept⟩ :=
    filter_perm hperm hanswers fun _ _ => holdsOption_reordered h q.predicate
  exact ⟨_, other.select_eq_ok.mpr ⟨stored', hstored', hanswers', rfl⟩, hkept⟩

theorem project_reordered {p : Projection} {row : Record} {v : Value}
    (hp : store.project p row = .ok v) : other.project p row = .ok v := by
  cases p with
  | field path kind => exact hp
  | count counted =>
    simp only [project] at hp ⊢
    cases hc : store.countRows counted row with
    | error e => rw [hc] at hp; cases hp
    | ok n => rw [hc] at hp; rw [countRows_reordered h counted hc]; exact hp

/-- A projection of the same rows in another order gives the same values in that order. -/
theorem projectAll_reordered {p : Projection} {rows rows' : List Record} {vs : List Value}
    (hperm : rows.Perm rows') (hvs : store.projectAll p rows = .ok vs) :
    ∃ vs', other.projectAll p rows' = .ok vs' ∧ vs.Perm vs' := by
  have heach := (store.projectAll_eq_ok.mp hvs).imp fun _ _ => project_reordered h
  obtain ⟨vs', heach', hvalues⟩ := List.perm_comp_forall₂ hperm.symm heach
  exact ⟨vs', other.projectAll_eq_ok.mpr heach', hvalues.symm⟩

end Answers

end DataGrid.Store
