import DataGrid.Proofs.ReadValues
import Mathlib.Logic.ExistsUnique

/-!
# Comparison filters

A filter's text and a stored value reach a comparison through different readers, and both end in
the one domain of the column's kind. Two values of a domain are always ordered, and each is equal to
itself. So the comparisons with a text that the kind reads divide the readable rows into those
below, those equal and those above; a row without a reading is kept by none of them.
-/

namespace DataGrid

open Number Calendar

theorem Number.Binary64.ofInt_ne_nan (n : Int) : Binary64.ofInt n ≠ .nan := by
  unfold Binary64.ofInt Binary64.ofRatio Binary64.ofUnits
  dsimp only
  split <;> exact fun h => by cases h

theorem Number.Binary64.exists_compare? {x y : Binary64} (hx : x ≠ .nan) (hy : y ≠ .nan) :
    ∃ o, x.compare? y = some o := by
  cases x with
  | nan => exact absurd rfl hx
  | infinite | finite =>
    cases y with
    | nan => exact absurd rfl hy
    | infinite | finite => exact ⟨_, rfl⟩

theorem then_compare_self {α β : Type} [Ord α] [Std.ReflOrd α] [Ord β] [Std.ReflOrd β] (a : α)
    (b : β) : (Ord.compare a a).then (Ord.compare b b) = .eq := by
  rw [Std.ReflOrd.compare_self, Std.ReflOrd.compare_self]
  rfl

namespace Value

theorem exists_asBinary64? {a : Value} (ha : a.domain? = some .number) :
    ∃ x, a.asBinary64? = some x ∧ x ≠ .nan := by
  cases a with
  | int n => exact ⟨_, rfl, Binary64.ofInt_ne_nan n.toInt⟩
  | float x =>
    cases x with
    | finite x => exact ⟨_, rfl, fun h => by cases h⟩
    | nan | infinite => cases ha
  | null | bool | decimal | text | date | time | dateTime | zoned => cases ha

theorem exists_compareBinary? {a b : Value} (ha : a.domain? = some .number)
    (hb : b.domain? = some .number) : ∃ o, compareBinary? a b = some o := by
  obtain ⟨x, hx, hxnan⟩ := exists_asBinary64? ha
  obtain ⟨y, hy, hynan⟩ := exists_asBinary64? hb
  obtain ⟨o, ho⟩ := Binary64.exists_compare? hxnan hynan
  refine ⟨o, ?_⟩
  unfold compareBinary?
  rw [hx, hy]
  exact ho

theorem domain_of_float {x : Binary64} {d : Domain} (h : (float x).domain? = some d) :
    d = .number := by
  cases x with
  | finite x => cases h; rfl
  | nan | infinite => cases h

/-- Two values of one domain are ordered. -/
theorem exists_compare? {a b : Value} {d : Domain} (ha : a.domain? = some d)
    (hb : b.domain? = some d) : ∃ o, a.compare? b = some o := by
  cases d with
  | number =>
    cases a with
    | int m =>
      cases b with
      | int n => exact ⟨_, rfl⟩
      | float y => exact exists_compareBinary? ha hb
      | _ => cases hb
    | float x =>
      cases b with
      | int n => exact exists_compareBinary? ha hb
      | float y => exact exists_compareBinary? ha hb
      | _ => cases hb
    | _ => cases ha
  | _ =>
    -- The domain has one constructor of values, which is that of `a` and then that of `b`.
    cases a with
    | float x => cases domain_of_float ha
    | _ =>
      cases ha
      all_goals
        cases b with
        | float y => cases domain_of_float hb
        | _ => first | exact ⟨_, rfl⟩ | cases hb

theorem compare?_self {a : Value} {d : Domain} (h : a.domain? = some d) :
    a.compare? a = some .eq := by
  cases a with
  | null => cases h
  | bool b => exact congrArg some Std.ReflOrd.compare_self
  | int n => exact congrArg some Std.ReflOrd.compare_self
  | float x =>
    cases x with
    | finite x => exact congrArg some (Std.ReflOrd.compare_self (a := x.signed))
    | nan | infinite => cases h
  | decimal x => exact congrArg some Std.ReflOrd.compare_self
  | text s => exact congrArg some Std.ReflOrd.compare_self
  | date x => exact congrArg some Std.ReflOrd.compare_self
  | time t => exact congrArg some (then_compare_self t.second t.nano)
  | dateTime m => exact congrArg some (then_compare_self m.epochSecond m.time.nano)
  | zoned m => exact congrArg some (then_compare_self m.epochSecond m.wall.time.nano)

end Value

namespace Comparison

/-- The comparisons of which one holds for each ordering. -/
def strict : List Comparison := [lessThan, equal, greaterThan]

/-- The strict comparison that an ordering answers. -/
def ofOrdering : Ordering → Comparison
  | .lt => lessThan
  | .eq => equal
  | .gt => greaterThan

theorem ofOrdering_mem (o : Ordering) : ofOrdering o ∈ strict := by cases o <;> decide

theorem holds_iff_of_strict {op : Comparison} (h : op ∈ strict) (o : Ordering) :
    op.holds (some o) = true ↔ op = ofOrdering o := by
  revert h
  cases op <;> cases o <;> decide

theorem holds_lessOrEqual (o : Ordering) : lessOrEqual.holds (some o) = true ↔
    lessThan.holds (some o) = true ∨ equal.holds (some o) = true := by
  cases o <;> decide

theorem holds_greaterOrEqual (o : Ordering) : greaterOrEqual.holds (some o) = true ↔
    greaterThan.holds (some o) = true ∨ equal.holds (some o) = true := by
  cases o <;> decide

theorem holds_notEqual (o : Ordering) : notEqual.holds (some o) = true ↔
    lessThan.holds (some o) = true ∨ greaterThan.holds (some o) = true := by
  cases o <;> decide

end Comparison

namespace Store

/-- Whether a comparison of a field with a value keeps a row. -/
def Keeps (store : Store) (path : Path) (kind : Kind) (v : Value) (row : Record)
    (op : Comparison) : Prop :=
  store.holds (.compare path kind op v) row = .ok true

variable (store : Store) {path : Path} {kind : Kind} {v : Value} {row : Record}

theorem keeps_iff {c : Option Ordering} (h : (row.read path kind).compare? v = c)
    (op : Comparison) : store.Keeps path kind v row op ↔ op.holds c = true := by
  unfold Keeps holds
  rw [h, Except.ok.injEq]

/-- **Comparison filters partition the readable rows.** Let a kind read a filter's text as a value.
A row whose field has no reading is kept by no comparison with the value. Of any other row exactly
one of less, equal and greater keeps it, and the other three comparisons keep it as the unions of
two of these do. A stored text that is the filter's text is equal to it. -/
theorem comparison_partition {raw : String} (hv : kind.read? raw = some v)
    (path : Path) (row : Record) :
    (row.read path kind = .null → ∀ op,
      store.holds (.compare path kind op v) row = .ok false) ∧
    (row.read path kind ≠ .null →
      (∃! op, op ∈ Comparison.strict ∧ store.Keeps path kind v row op) ∧
      (store.Keeps path kind v row .lessOrEqual ↔
        store.Keeps path kind v row .lessThan ∨ store.Keeps path kind v row .equal) ∧
      (store.Keeps path kind v row .greaterOrEqual ↔
        store.Keeps path kind v row .greaterThan ∨ store.Keeps path kind v row .equal) ∧
      (store.Keeps path kind v row .notEqual ↔
        store.Keeps path kind v row .lessThan ∨ store.Keeps path kind v row .greaterThan)) ∧
    (row.lookup? path.segments = some (.string raw) → ∀ op ∈ Comparison.strict,
      (store.Keeps path kind v row op ↔ op = .equal)) := by
  have hdomain := Kind.read?_domain hv
  refine ⟨?_, ?_, ?_⟩
  · intro hnull op
    unfold holds
    rw [hnull]
    cases op <;> rfl
  · intro hreadable
    have hstored := (row.read_domain path kind).resolve_left hreadable
    obtain ⟨o, ho⟩ := Value.exists_compare? hstored hdomain
    have hkeeps := store.keeps_iff ho
    simp only [hkeeps]
    refine ⟨⟨.ofOrdering o, ⟨Comparison.ofOrdering_mem o, ?_⟩, ?_⟩, Comparison.holds_lessOrEqual o,
      Comparison.holds_greaterOrEqual o, Comparison.holds_notEqual o⟩
    · exact (Comparison.holds_iff_of_strict (Comparison.ofOrdering_mem o) o).2 rfl
    · rintro op ⟨hop, hholds⟩
      exact (Comparison.holds_iff_of_strict hop o).1 hholds
  · intro hstored op hop
    have hread : row.read path kind = v := by
      unfold Record.read
      rw [hstored]
      show (kind.read? raw).getD .null = v
      rw [hv]
      rfl
    have hself : (row.read path kind).compare? v = some .eq := by
      rw [hread]
      exact Value.compare?_self hdomain
    rw [store.keeps_iff hself]
    exact Comparison.holds_iff_of_strict hop .eq

def arrival (v : Json) : Record := [("at", v)]

theorem comparison_partition_of_arrivals :
    ∃ noon, Kind.offsetDateTime.read? "2024-01-15T12:00:00+02:00" = some noon ∧
      (∀ op, Store.holds {} (.compare ⟨["at"]⟩ .offsetDateTime op noon)
        (arrival (.number (.integer 12))) = .ok false) ∧
      (∃! op, op ∈ Comparison.strict ∧ Store.Keeps {} ⟨["at"]⟩ .offsetDateTime noon
        (arrival (.string "2024-01-15T10:00:00Z")) op) ∧
      ∀ op ∈ Comparison.strict, Store.Keeps {} ⟨["at"]⟩ .offsetDateTime noon
        (arrival (.string "2024-01-15T12:00:00+02:00")) op ↔ op = .equal := by
  have hreads : (Kind.offsetDateTime.read? "2024-01-15T12:00:00+02:00").isSome := by
    decide +kernel
  obtain ⟨noon, hnoon⟩ := Option.isSome_iff_exists.mp hreads
  have hother : (arrival (.string "2024-01-15T10:00:00Z")).read ⟨["at"]⟩ .offsetDateTime ≠
      .null := by
    decide +kernel
  exact ⟨noon, hnoon, (comparison_partition {} hnoon ⟨["at"]⟩ _).1 rfl,
    ((comparison_partition {} hnoon ⟨["at"]⟩ _).2.1 hother).1,
    (comparison_partition {} hnoon ⟨["at"]⟩ _).2.2 rfl⟩

end Store

end DataGrid
