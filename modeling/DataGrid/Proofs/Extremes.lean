import DataGrid.Proofs.ReorderedRows
import DataGrid.Proofs.ValueOrder

/-!
# Extremes

The values that one projection takes from rows lie on one scale, apart from nulls and binary
numbers. On a scale the running best of an extreme is the first value that none of those seen so
far beats, and so the answer is the first value that none beats at all. In another order of the
rows another one of the equal values may come first.
-/

namespace DataGrid

namespace Value

/-- The scale of the values of a domain. -/
def Domain.scale : Domain → Scale
  | .bool => .bool
  | .number | .decimal => .number
  | .text => .text
  | .date => .date
  | .time => .time
  | .local => .moment
  | .zoned => .instant

theorem scale?_of_domain {v : Value} {d : Domain} (h : v.domain? = some d)
    (hfloat : v.isFloat = false) : v.scale? = some d.scale := by
  cases v with
  | null => cases h
  | float x => cases hfloat
  | bool | int | decimal | text | date | time | dateTime | zoned => cases h; rfl

theorem eq_null_of_isNull {v : Value} (h : v.isNull = true) : v = null := by
  cases v <;> first | rfl | cases h

end Value

/-! ## The running best -/

/-- Whether a value beats every earlier value of a list, and no later one beats it. -/
def Leads (s : Value.Scale) (wins : Ordering) (vs : List Value) (w : Value) : Prop :=
  ∃ before after, vs = before ++ w :: after ∧ (∀ v ∈ before, Value.compareAs s w v = wins) ∧
    ∀ v ∈ after, Value.compareAs s v w ≠ wins

namespace Leads

open Value

variable {s : Scale} {wins : Ordering} {vs : List Value} {best v w : Value}

theorem swap_ne {a b : Value} (hwins : wins ≠ .eq) (h : compareAs s a b = wins) :
    compareAs s b a ≠ wins := by
  have hswap : compareAs s b a = (compareAs s a b).swap := Std.OrientedCmp.eq_swap
  rw [hswap, h]
  revert hwins
  cases wins <;> decide

theorem mem (h : Leads s wins vs w) : w ∈ vs := by
  obtain ⟨before, after, rfl, -, -⟩ := h
  simp

/-- What leads a list is the head of the list or beats it. -/
theorem eq_head_or_beats (h : Leads s wins (v :: vs) w) : w = v ∨ compareAs s w v = wins := by
  obtain ⟨before, after, hvs, hbefore, -⟩ := h
  cases before with
  | nil =>
    cases hvs
    exact .inl rfl
  | cons u before =>
    cases hvs
    exact .inr (hbefore v List.mem_cons_self)

/-- A beaten value in front of a list changes nothing. -/
theorem cons_beaten (hwins : wins ≠ .eq) (hv : compareAs s v best = wins)
    (h : Leads s wins (v :: vs) w) : Leads s wins (best :: v :: vs) w := by
  have hbest : compareAs s w best = wins := by
    rcases h.eq_head_or_beats with rfl | hw
    · exact hv
    · exact compareAs_trans hwins hw (swap_ne hwins hv)
  obtain ⟨before, after, hvs, hbefore, hafter⟩ := h
  refine ⟨best :: before, after, by rw [hvs, List.cons_append], ?_, hafter⟩
  exact List.forall_mem_cons.2 ⟨hbest, hbefore⟩

/-- A value that does not beat the head of a list may be put behind it. -/
theorem insert (hwins : wins ≠ .eq) (hv : compareAs s v best ≠ wins)
    (h : Leads s wins (best :: vs) w) : Leads s wins (best :: v :: vs) w := by
  obtain ⟨before, after, hvs, hbefore, hafter⟩ := h
  cases before with
  | nil =>
    cases hvs
    exact ⟨[], v :: vs, rfl, nofun, List.forall_mem_cons.2 ⟨hv, hafter⟩⟩
  | cons u before =>
    cases hvs
    have hbest := hbefore best List.mem_cons_self
    refine ⟨best :: v :: before, after, rfl, ?_, hafter⟩
    rw [List.forall_mem_cons] at hbefore ⊢
    exact ⟨hbest, List.forall_mem_cons.2 ⟨compareAs_trans hwins hbest hv, hbefore.2⟩⟩

end Leads

/-- The extreme of values of one scale is the first that no other one beats. -/
theorem extreme_leads {s : Value.Scale} {wins : Ordering} (hwins : wins ≠ .eq) (best : Value)
    {vs : List Value} (h : ∀ v ∈ best :: vs, v.scale? = some s) :
    Leads s wins (best :: vs) (extreme wins best vs) := by
  induction vs generalizing best with
  | nil => exact ⟨[], [], rfl, nofun, nofun⟩
  | cons v vs ih =>
    obtain ⟨hbest, hv, hvs⟩ : _ ∧ _ ∧ ∀ u ∈ vs, u.scale? = some s := by
      rwa [List.forall_mem_cons, List.forall_mem_cons] at h
    rw [extreme, Value.compare?_eq_compareAs hv hbest]
    by_cases hbeats : Value.compareAs s v best = wins
    · rw [if_pos (congrArg some hbeats)]
      exact (ih v (List.forall_mem_cons.2 ⟨hv, hvs⟩)).cons_beaten hwins hbeats
    · rw [if_neg (mt Option.some.inj hbeats)]
      exact (ih best (List.forall_mem_cons.2 ⟨hbest, hvs⟩)).insert hwins hbeats

/-! ## First extremes -/

/-- Whether a value is the first of those that no value of a list beats. -/
def FirstExtreme (wins : Ordering) (vs : List Value) (w : Value) : Prop :=
  ∃ before after, vs = before ++ w :: after ∧ (∀ v ∈ vs, v.compare? w ≠ some wins) ∧
    ∀ v ∈ before, v.compare? w ≠ some .eq

theorem Leads.firstExtreme {s : Value.Scale} {wins : Ordering} {vs : List Value} {w : Value}
    (h : Leads s wins vs w) (hwins : wins ≠ .eq) (hvs : ∀ v ∈ vs, v.scale? = some s) :
    FirstExtreme wins vs w := by
  have hw := hvs w h.mem
  obtain ⟨before, after, rfl, hbefore, hafter⟩ := h
  refine ⟨before, after, rfl, fun v hv => ?_, fun v hv => ?_⟩
  · rw [Value.compare?_eq_compareAs (hvs v hv) hw, Ne, Option.some.injEq]
    rcases List.mem_append.1 hv with hv | hv
    · exact swap_ne hwins (hbefore v hv)
    · rcases List.mem_cons.1 hv with rfl | hv
      · have hself : Value.compareAs s v v = .eq := Std.ReflCmp.compare_self
        rw [hself]
        exact hwins.symm
      · exact hafter v hv
  · have hswap : Value.compareAs s v w = (Value.compareAs s w v).swap := Std.OrientedCmp.eq_swap
    rw [Value.compare?_eq_compareAs (hvs v (List.mem_append_left _ hv)) hw, hswap,
      hbefore v hv, Ne, Option.some.injEq]
    revert hwins
    cases wins <;> decide

/-- Nulls neither beat nor equal anything. -/
theorem FirstExtreme.of_filter {wins : Ordering} {vs : List Value} {w : Value}
    (h : FirstExtreme wins (vs.filter (!·.isNull)) w) : FirstExtreme wins vs w := by
  obtain ⟨before, after, hvs, hbest, hbefore⟩ := h
  obtain ⟨before', after', rfl, rfl, hrest⟩ := List.filter_eq_append_iff.1 hvs
  obtain ⟨nulls, after'', rfl, hnulls, hw, rfl⟩ := List.filter_eq_cons_iff.1 hrest
  have hincomparable : ∀ v : Value, v.isNull = true → v.compare? w = none := by
    intro v hv
    rw [Value.eq_null_of_isNull hv]
    cases w <;> rfl
  refine ⟨before' ++ nulls, after'', by rw [List.append_assoc], fun v hv => ?_, fun v hv => ?_⟩
  · cases hnull : v.isNull with
    | true =>
      rw [hincomparable v hnull]
      nofun
    | false => exact hbest v (List.mem_filter.2 ⟨hv, by rw [hnull]; rfl⟩)
  · cases hnull : v.isNull with
    | true =>
      rw [hincomparable v hnull]
      nofun
    | false =>
      have hkept : (!v.isNull) = true := by rw [hnull]; rfl
      rcases List.mem_append.1 hv with hv | hv
      · exact hbefore v (List.mem_filter.2 ⟨hv, hkept⟩)
      · exact absurd hkept (hnulls v hv)

/-- Two values of a list that none of the list beats are equal. -/
theorem compare?_of_unbeaten {s : Value.Scale} {wins : Ordering} {v w : Value}
    (hwins : wins ≠ .eq) (hv : v.scale? = some s) (hw : w.scale? = some s)
    (hvw : v.compare? w ≠ some wins) (hwv : w.compare? v ≠ some wins) :
    v.compare? w = some .eq := by
  rw [Value.compare?_swap v w] at hwv
  rw [Value.compare?_eq_compareAs hv hw] at hvw hwv ⊢
  revert hwins hvw hwv
  cases Value.compareAs s v w <;> cases wins <;> decide

/-! ## Scalar queries -/

/-- How a value compares to those that it beats, for an extreme. -/
def Aggregate.wins? : Aggregate → Option Ordering
  | max | greatest => some .gt
  | min | least => some .lt
  | sum | average | count => none

namespace Aggregate

variable {a : Aggregate} {wins : Ordering}

theorem wins_ne_eq (h : a.wins? = some wins) : wins ≠ .eq := by
  cases a <;> cases h <;> decide

theorem apply_nil_of_wins (h : a.wins? = some wins) : a.apply [] = .ok .null := by
  cases a <;> first | rfl | cases h

theorem apply_cons_of_wins (h : a.wins? = some wins) (v : Value) (vs : List Value) :
    a.apply (v :: vs) = .ok (extreme wins v vs) := by
  cases a <;> cases h <;> rfl

/-- An extreme of values of one scale: null over none, and else the first that no other beats. -/
theorem apply_extreme {s : Value.Scale} {vs : List Value} (h : a.wins? = some wins)
    (hvs : ∀ v ∈ vs, v.scale? = some s) :
    (vs = [] ∧ a.apply vs = .ok .null) ∨ ∃ w, a.apply vs = .ok w ∧ w ∈ vs ∧
      FirstExtreme wins vs w := by
  cases vs with
  | nil => exact .inl ⟨rfl, apply_nil_of_wins h⟩
  | cons v vs =>
    have hleads := extreme_leads (wins_ne_eq h) v hvs
    exact .inr ⟨_, apply_cons_of_wins h v vs, hleads.mem,
      hleads.firstExtreme (wins_ne_eq h) hvs⟩

/-- An extreme of integers is one of them that no other beats. -/
theorem apply_extreme_ints {ns : List Int64} (h : a.wins? = some wins) (hne : ns ≠ []) :
    ∃ n ∈ ns, a.apply (ns.map .int) = .ok (.int n) ∧
      ∀ m ∈ ns, Ord.compare m.toInt n.toInt ≠ wins := by
  have hscale : ∀ v ∈ ns.map Value.int, v.scale? = some .number :=
    List.forall_mem_map.2 fun _ _ => rfl
  rcases apply_extreme h hscale with ⟨hempty, -⟩ | ⟨w, happly, hw, -, -, -, hbest, -⟩
  · exact absurd (List.map_eq_nil_iff.1 hempty) hne
  · obtain ⟨n, hn, rfl⟩ := List.mem_map.1 hw
    exact ⟨n, hn, happly, fun m hm hwins =>
      hbest (.int m) (List.mem_map_of_mem hm) (congrArg some hwins)⟩

end Aggregate

namespace Store

variable {store : Store}

/-- What a projection takes from rows lies on one scale, apart from nulls and binary numbers. -/
theorem exists_scale_of_project (store : Store) (p : Projection) :
    ∃ s, ∀ row v, store.project p row = .ok v → v.isNull = false → v.isFloat = false →
      v.scale? = some s := by
  cases p with
  | field path kind =>
    refine ⟨kind.domain.scale, fun row v hv hnull hfloat => ?_⟩
    cases hv
    rcases row.read_domain path kind with hnone | hdomain
    · rw [hnone] at hnull
      cases hnull
    · exact Value.scale?_of_domain hdomain hfloat
  | count counted =>
    refine ⟨.number, fun row v hv _ _ => ?_⟩
    simp only [project] at hv
    cases hc : store.countRows counted row with
    | error e => rw [hc] at hv; cases hv
    | ok n => rw [hc] at hv; cases hv; rfl

/-- An extreme over values of one scale, nulls apart. -/
theorem scalar_extreme {q : Query} {p : Projection} {a : Aggregate} {wins : Ordering}
    {s : Value.Scale} {rows : List Record} {vs : List Value} (hwins : a.wins? = some wins)
    (hrows : store.select q = .ok rows) (hvs : store.projectAll p rows = .ok vs)
    (hscale : ∀ v ∈ vs, v.isNull = false → v.scale? = some s) :
    ((∀ v ∈ vs, v = .null) ∧ store.scalar ⟨q, p, a⟩ = .ok .null) ∨
      ∃ w, store.scalar ⟨q, p, a⟩ = .ok w ∧ w ∈ vs ∧ w.isNull = false ∧
        FirstExtreme wins vs w := by
  have hreadable : ∀ v ∈ vs.filter (!·.isNull), v.scale? = some s := by
    intro v hv
    obtain ⟨hmem, hnull⟩ := List.mem_filter.1 hv
    exact hscale v hmem (by simpa using hnull)
  rcases a.apply_extreme hwins hreadable with ⟨hempty, happly⟩ | ⟨w, happly, hw, hfirst⟩
  · refine .inl ⟨fun v hv => ?_, scalar_of_values store hrows hvs happly⟩
    have hnull := List.filter_eq_nil_iff.1 hempty v hv
    exact Value.eq_null_of_isNull (by simpa using hnull)
  · obtain ⟨hmem, hnull⟩ := List.mem_filter.1 hw
    exact .inr ⟨w, scalar_of_values store hrows hvs happly, hmem, by simpa using hnull,
      hfirst.of_filter⟩

/-- In another order of the rows an extreme is one of the same values, and none of them beats it. -/
theorem scalar_extreme_reordered {q : Query} {p : Projection} {a : Aggregate} {wins : Ordering}
    {s : Value.Scale} {rows : List Record} {vs : List Value} (hwins : a.wins? = some wins)
    (hrows : store.select q = .ok rows) (hvs : store.projectAll p rows = .ok vs)
    (hscale : ∀ v ∈ vs, v.isNull = false → v.scale? = some s) {other : Store}
    (h : store.Reordered other) :
    ((∀ v ∈ vs, v = .null) ∧ other.scalar ⟨q, p, a⟩ = .ok .null) ∨
      ∃ w, other.scalar ⟨q, p, a⟩ = .ok w ∧ w ∈ vs ∧ w.isNull = false ∧
        ∀ v ∈ vs, v.compare? w ≠ some wins := by
  obtain ⟨rows', hrows', hperm⟩ := select_reordered h hrows
  obtain ⟨vs', hvs', hvalues⟩ := projectAll_reordered h hperm hvs
  have hscale' : ∀ v ∈ vs', v.isNull = false → v.scale? = some s :=
    fun v hv => hscale v (hvalues.mem_iff.2 hv)
  rcases scalar_extreme hwins hrows' hvs' hscale' with ⟨hnull, hw⟩ | ⟨w, hw, hmem, hread, hfirst⟩
  · exact .inl ⟨fun v hv => hnull v (hvalues.mem_iff.1 hv), hw⟩
  · obtain ⟨-, -, -, hbest, -⟩ := hfirst
    exact .inr ⟨w, hw, hvalues.mem_iff.2 hmem, hread, fun v hv => hbest v (hvalues.mem_iff.1 hv)⟩

/-- **Extremes are optimal.** Let a projection give no binary numbers on the selected rows. Then an
extreme is null exactly when there are only nulls, and otherwise the first of the projected values
that none of them beats. After any reordering of the stored rows it is null or equal to what it
was. -/
theorem scalar_firstExtreme {q : Query} {p : Projection} {a : Aggregate} {wins : Ordering}
    {rows : List Record} {vs : List Value} (hwins : a.wins? = some wins)
    (hrows : store.select q = .ok rows) (hvs : store.projectAll p rows = .ok vs)
    (hfloat : ∀ v ∈ vs, v.isFloat = false) :
    ∃ w, store.scalar ⟨q, p, a⟩ = .ok w ∧
      (w = .null ↔ ∀ v ∈ vs, v = .null) ∧
      (w ≠ .null → FirstExtreme wins vs w) ∧
      ∀ other, store.Reordered other → ∃ w', other.scalar ⟨q, p, a⟩ = .ok w' ∧
        (w = .null → w' = .null) ∧ (w ≠ .null → w'.compare? w = some .eq) := by
  obtain ⟨s, hproject⟩ := store.exists_scale_of_project p
  have hscale : ∀ v ∈ vs, v.isNull = false → v.scale? = some s := by
    intro v hv hnull
    obtain ⟨row, hrow⟩ := store.exists_of_mem_projectAll hvs hv
    exact hproject row v hrow hnull (hfloat v hv)
  rcases scalar_extreme hwins hrows hvs hscale with ⟨hnull, hw⟩ | ⟨w, hw, hmem, hread, hfirst⟩
  · refine ⟨.null, hw, iff_of_true rfl hnull, fun h => absurd rfl h, fun other h => ?_⟩
    rcases scalar_extreme_reordered hwins hrows hvs hscale h with
      ⟨-, hw'⟩ | ⟨w', -, hmem', hread', -⟩
    · exact ⟨.null, hw', fun _ => rfl, fun h => absurd rfl h⟩
    · rw [hnull w' hmem'] at hread'
      cases hread'
  · have hne : w ≠ .null := by
      rintro rfl
      cases hread
    refine ⟨w, hw, iff_of_false hne fun h => hne (h w hmem), fun _ => hfirst, fun other h => ?_⟩
    rcases scalar_extreme_reordered hwins hrows hvs hscale h with
      ⟨hnull, -⟩ | ⟨w', hw', hmem', hread', hbest'⟩
    · exact absurd (hnull w hmem) hne
    · -- Both are values of the list that none of the list beats.
      obtain ⟨-, -, -, hbest, -⟩ := hfirst
      refine ⟨w', hw', fun h => absurd h hne, fun _ => ?_⟩
      exact compare?_of_unbeaten (Aggregate.wins_ne_eq hwins) (hscale w' hmem' hread')
        (hscale w hmem hread) (hbest w' hmem') (hbest' w hmem)

/-- Prices of which the second and the third are equal. -/
def prices : List Record :=
  [[("price", .string "1")], [("price", .string "2.50")], [("price", .string "2.5")],
    [("price", .null)]]

/-- The prices as the rows of one entity. -/
def offers (prices : List Record) : Store := ⟨[("offers", prices)]⟩

def highestPrice : AggregateQuery := ⟨{ entity := "offers" }, .field ⟨["price"]⟩ .decimal, .max⟩

theorem scalar_firstExtreme_of_prices :
    ∃ vs w w', (offers prices).projectAll highestPrice.projection prices = .ok vs ∧
      (∀ v ∈ vs, v.isFloat = false) ∧ (offers prices).scalar highestPrice = .ok w ∧
      FirstExtreme .gt vs w ∧ (offers prices.reverse).scalar highestPrice = .ok w' ∧
      w'.compare? w = some .eq := by
  have hrows : (offers prices).select highestPrice.source = .ok prices := rfl
  have hfloat : ∀ v ∈ prices.map (·.read ⟨["price"]⟩ .decimal), v.isFloat = false := by
    decide +kernel
  have hnull : ¬ ∀ v ∈ prices.map (·.read ⟨["price"]⟩ .decimal), v = .null := by decide +kernel
  have hreordered : (offers prices).Reordered (offers prices.reverse) := by
    intro entity
    unfold rows? offers
    rw [List.lookup_cons, List.lookup_cons]
    cases entity == "offers" with
    | true => exact .some (List.reverse_perm prices).symm
    | false => exact .none
  obtain ⟨w, hw, hiff, hfirst, hother⟩ :=
    scalar_firstExtreme (p := highestPrice.projection) (a := .max) rfl hrows rfl hfloat
  have hne : w ≠ .null := fun h => hnull (hiff.1 h)
  obtain ⟨w', hw', -, heq⟩ := hother _ hreordered
  exact ⟨_, w, w', rfl, hfloat, hw, hfirst hne, hw', heq hne⟩

end Store

end DataGrid
