import DataGrid.Proofs.RowTotals

/-!
# The types of totals

An aggregate is null, a number that was added up or counted, or one of the values that it
was taken from. So the total of a column is absent or has the type of the column's kind.
-/

namespace DataGrid

/-- Whether a total is absent or has the type of the values of a family. -/
def Total.suits : Total → Family → Bool
  | absent, _ => true
  | number _, f => f = .numeric || f = .relatedCount
  | temporal _, f => f = .temporal
  | text _, f => f = .text || f = .enumeration

theorem Total.ofResult_suits {v : Value} {f : Family} (h : v = .null ∨ v.suits f) :
    (ofResult v).suits f := by
  rcases h with rfl | h
  · rfl
  cases f with
  | numeric | relatedCount =>
    have hv : v.isNumber := h
    cases v with
    | int _ | float _ | decimal _ =>
      unfold ofResult
      simp only [ofValue?]
      cases Value.asDecimal? _ <;> rfl
    | null | bool _ | text _ | date _ | time _ | dateTime _ | zoned _ => cases hv
  | temporal =>
    have hv : v.asTemporal?.isSome := h
    cases v with
    | date _ | time _ | dateTime _ | zoned _ => rfl
    | null | bool _ | int _ | float _ | decimal _ | text _ => cases hv
  | text | enumeration =>
    have hv : v.asText?.isSome := h
    cases v with
    | text _ => rfl
    | null | bool _ | int _ | float _ | decimal _ | date _ | time _ | dateTime _ | zoned _ =>
      cases hv
  | boolean =>
    have hv : v.isBool := h
    cases v with
    | bool _ => rfl
    | null | int _ | float _ | decimal _ | text _ | date _ | time _ | dateTime _ | zoned _ =>
      cases hv

/-! ## Results of aggregates -/

theorem Totals.sum_isNumber (t : Totals) : t.sum.isNumber := by
  unfold sum
  split
  · cases t.decimals <;> rfl
  · split
    · rfl
    · split <;> rfl

theorem Totals.average_isNumber (t : Totals) (count : Nat) : (t.average count).isNumber := by
  unfold average
  simp only
  split
  · cases t.decimals.bind (·.quotient? count) <;> rfl
  · rfl

theorem extreme_mem (wins : Ordering) (best : Value) (vs : List Value) :
    extreme wins best vs ∈ best :: vs := by
  induction vs generalizing best with
  | nil => exact List.mem_singleton.mpr rfl
  | cons v vs ih =>
    rw [extreme]
    split
    · exact List.mem_cons_of_mem best (ih v)
    · rcases List.mem_cons.mp (ih best) with hbest | hrest
      · rw [hbest]
        exact List.mem_cons_self
      · exact List.mem_cons_of_mem best (List.mem_cons_of_mem v hrest)

namespace Aggregate

theorem isNumber_of_map {f : Totals → Value} (hf : ∀ t, (f t).isNumber)
    {r : Except NotNumeric Totals} {w : Value} (h : r.map f = .ok w) : w.isNumber := by
  cases r with
  | error e => cases h
  | ok t =>
    cases h
    exact hf t

/-- An aggregate is null, a number that was added up or counted, or one of its values. -/
theorem apply_result {a : Aggregate} {vs : List Value} {w : Value} (h : a.apply vs = .ok w) :
    w = .null ∨ (a.adds ∨ a = .count) ∧ w.isNumber ∨ w ∈ vs := by
  cases vs with
  | nil =>
    cases a with
    | count => cases h; exact .inr (.inl ⟨.inr rfl, rfl⟩)
    | sum | average | max | min | greatest | least => cases h; exact .inl rfl
  | cons v vs =>
    cases a with
    | sum => exact .inr (.inl ⟨.inl rfl, isNumber_of_map Totals.sum_isNumber h⟩)
    | average => exact .inr (.inl ⟨.inl rfl, isNumber_of_map (Totals.average_isNumber · _) h⟩)
    | count => cases h; exact .inr (.inl ⟨.inr rfl, rfl⟩)
    | max | min | greatest | least => cases h; exact .inr (.inr (extreme_mem _ v vs))

end Aggregate

namespace ColumnState.Supports

variable {c : ColumnState} {support : Support} (h : c.Supports support) (store : Store)

include h

/-- What adds up is asked of numbers only, and nothing is merely counted. -/
theorem isNumber_suits {slot : TotalSlot} {aggregate : Aggregate}
    (hm : (slot, aggregate) ∈ support.slots) (ha : aggregate.adds ∨ aggregate = .count)
    {v : Value} (hv : v.isNumber) : v.suits c.kind.family := by
  cases h with
  | numbers hk | related hk =>
    rw [hk]
    exact hv
  | extremes =>
    simp only [Support.extremes, List.mem_cons, List.not_mem_nil, or_false] at hm
    rcases hm with hm | hm <;> cases hm <;> rcases ha with ha | ha <;> cases ha

/-- A scalar query over what a column can have gives null or the type of the column's kind. -/
theorem scalar_suits {slot : TotalSlot} {aggregate : Aggregate}
    (hm : (slot, aggregate) ∈ support.slots) {q : Query} {v : Value}
    (hv : store.scalar ⟨q, support.projection, aggregate⟩ = .ok v) :
    v = .null ∨ v.suits c.kind.family := by
  obtain ⟨rows, values, -, hp, ha⟩ := store.scalar_inv hv
  rcases Aggregate.apply_result ha with hnull | ⟨hadds, hnumber⟩ | hmem
  · exact .inl hnull
  · exact .inr (h.isNumber_suits hm hadds hnumber)
  · have hvalue : v ∈ values := (List.mem_filter.mp hmem).1
    obtain ⟨row, hrow⟩ := store.exists_of_mem_projectAll hp hvalue
    exact h.project_suits store hrow

end ColumnState.Supports

end DataGrid
