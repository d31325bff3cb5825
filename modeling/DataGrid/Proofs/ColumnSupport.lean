import DataGrid.Grid.Totals

/-!
# What a column can have

The aggregates that a column can have come with the family of its kind, and so does
what they are taken from: a field that its expression names, read as its kind, or the
count of the rows that its relation leads to.
-/

namespace DataGrid

theorem Kind.eq_relatedCount {k : Kind} (h : k.family = .relatedCount) : k = .relatedCount := by
  revert h
  cases k <;> decide

/-- The pairs of paths of a relation's keys, those of the related rows first. -/
def Relation.pairs? (r : Relation) : Option (List (Path × Path)) :=
  r.keys.mapM fun (outer, inner) => do
    return (← Path.parse? inner, ← Path.parse? outer)

/-- What a column's aggregates can be taken from, by the family of its kind. -/
inductive ColumnState.Supports (c : ColumnState) : Support → Prop
  | numbers {expression : String} {path : Path} (hk : c.kind.family = .numeric)
    (he : c.expression = some expression) (hp : Path.parse? expression = some path) :
    c.Supports (.numeric (.field path c.kind))
  | extremes {expression : String} {path : Path}
    (hk : c.kind.family = .temporal ∨ c.kind.family = .text)
    (he : c.expression = some expression) (hp : Path.parse? expression = some path) :
    c.Supports (.extremes (.field path c.kind))
  | related {r : Relation} {pairs : List (Path × Path)} (hk : c.kind.family = .relatedCount)
    (hr : c.relation = some r) (hp : r.pairs? = some pairs) :
    c.Supports (.numeric (.count (.mk r.entity none pairs)))

theorem ColumnState.supports_of_support? {c : ColumnState} {support : Support}
    (h : c.support? = some support) : c.Supports support := by
  obtain ⟨expression, he, h⟩ := Option.bind_eq_some_iff.mp h
  cases hk : c.kind.family with
  | numeric =>
    simp only [hk] at h
    obtain ⟨path, hp, h⟩ := Option.bind_eq_some_iff.mp h
    cases h
    exact .numbers hk he hp
  | temporal =>
    simp only [hk] at h
    obtain ⟨path, hp, h⟩ := Option.bind_eq_some_iff.mp h
    cases h
    exact .extremes (.inl hk) he hp
  | text =>
    simp only [hk] at h
    obtain ⟨path, hp, h⟩ := Option.bind_eq_some_iff.mp h
    cases h
    exact .extremes (.inr hk) he hp
  | relatedCount =>
    simp only [hk] at h
    split at h
    · obtain ⟨r, hr, h⟩ := Option.bind_eq_some_iff.mp h
      obtain ⟨counted, hc, h⟩ := Option.bind_eq_some_iff.mp h
      obtain ⟨pairs, hp, rfl⟩ := Option.map_eq_some_iff.mp hc
      cases h
      exact .related hk hr hp
    · cases h
  | boolean | enumeration =>
    simp only [hk] at h
    cases h

theorem ColumnState.Supports.nodup {c : ColumnState} {support : Support}
    (h : c.Supports support) : (support.slots.map (·.1)).Nodup := by
  cases h <;> simp [Support.numeric, Support.extremes]

end DataGrid
