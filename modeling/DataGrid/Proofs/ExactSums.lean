import DataGrid.Proofs.DecimalAddition
import DataGrid.Proofs.ReadValues
import DataGrid.Total
import Mathlib.Algebra.BigOperators.Group.List.Basic
import Mathlib.Algebra.Ring.Int.Defs
import Mathlib.Data.List.Induction
import Mathlib.Data.List.Infix

/-!
# Sums of integers and of decimals

The running totals of a sum are kept apart: none of them depends on the others. So a sum of
integers is exact as long as every running total is within the range of decimals, and only its
type tells whether one of them has left the 64-bit words. A sum with decimals among its terms is
exact as long as every exact running total has a decimal form, and it is a binary number from the
first that is out of range on. A running total with too many digits is rounded.
-/

namespace DataGrid

open Number

namespace Value

def isFloat : Value → Bool
  | float _ => true
  | _ => false

def isDecimal : Value → Bool
  | decimal _ => true
  | _ => false

/-- Whether the value is an integer or a decimal. -/
def isExact : Value → Bool
  | int _ | decimal _ => true
  | _ => false

/-- The value of an integer or a decimal in units of the last place of a decimal. -/
def units : Value → Int
  | int n => n.toInt * tenTo scaleLimit
  | decimal d => d.units
  | _ => 0

theorem isNumber_of_isExact {v : Value} (h : v.isExact) : v.isNumber := by
  cases v <;> first | rfl | cases h

theorem asDecimal?_of_isExact {v : Value} (h : v.isExact) :
    ∃ d, v.asDecimal? = some d ∧ d.units = v.units := by
  cases v with
  | int n => exact ⟨Decimal.ofInt64 n, rfl, Decimal.units_whole (Decimal.natAbs_toInt_lt n)⟩
  | decimal d => exact ⟨d, rfl, rfl⟩
  | _ => cases h

end Value

namespace Totals

/-- What a value does to the running total of integers. -/
def stepInts (total : Option Int64) : Value → Option Int64
  | .int n => total.bind (checkedAdd · n)
  | _ => total

/-- What a value does to the running total of decimals. -/
def stepDecimals (total : Option Decimal) (v : Value) : Option Decimal := do
  (← total).sum? (← v.asDecimal?)

/-- One value moves each running total on its own. -/
theorem add?_parts {t t' : Totals} {v : Value} (h : t.add? v = some t') :
    t'.ints = stepInts t.ints v ∧ t'.decimals = stepDecimals t.decimals v ∧
      t'.sawFloat = (t.sawFloat || v.isFloat) ∧
      t'.sawDecimal = (t.sawDecimal || v.isDecimal) := by
  cases v <;> cases h
  all_goals exact ⟨rfl, rfl, by simp [Value.isFloat], by simp [Value.isDecimal]⟩

theorem ofValues_parts {a : Aggregate} {t t' : Totals} {vs : List Value}
    (h : ofValues a t vs = .ok t') :
    t'.ints = vs.foldl stepInts t.ints ∧ t'.decimals = vs.foldl stepDecimals t.decimals ∧
      t'.sawFloat = (t.sawFloat || vs.any Value.isFloat) ∧
      t'.sawDecimal = (t.sawDecimal || vs.any Value.isDecimal) := by
  induction vs generalizing t with
  | nil =>
    cases h
    simp
  | cons v vs ih =>
    rw [ofValues] at h
    split at h
    · rename_i u hu
      obtain ⟨hints, hdecimals, hfloat, hdecimal⟩ := add?_parts hu
      have hrest := ih h
      rw [hints, hdecimals, hfloat, hdecimal, Bool.or_assoc, Bool.or_assoc] at hrest
      exact hrest
    · cases h

end Totals

theorem Aggregate.sum_apply {vs : List Value} (hne : vs ≠ []) (h : ∀ v ∈ vs, v.isNumber) :
    ∃ t : Totals, sum.apply vs = .ok t.sum ∧
      t.ints = vs.foldl Totals.stepInts (some 0) ∧
      t.decimals = vs.foldl Totals.stepDecimals (some .zero) ∧
      t.sawFloat = vs.any Value.isFloat ∧ t.sawDecimal = vs.any Value.isDecimal := by
  obtain ⟨t, ht⟩ := Totals.ofValues_ok sum h {}
  obtain ⟨hints, hdecimals, hfloat, hdecimal⟩ := Totals.ofValues_parts ht
  refine ⟨t, ?_, hints, hdecimals, hfloat, hdecimal⟩
  cases vs with
  | nil => exact absurd rfl hne
  | cons v vs => simp only [apply, ht]; rfl

/-! ## Sums of integers -/

/-- The exact sum. -/
def integerSum (ns : List Int64) : Int := (ns.map Int64.toInt).sum

theorem integerSum_concat (ns : List Int64) (n : Int64) :
    integerSum (ns ++ [n]) = integerSum ns + n.toInt := by
  simp [integerSum]

theorem integerSum_perm {ms ns : List Int64} (h : ms.Perm ns) : integerSum ms = integerSum ns :=
  (h.map _).sum_eq

namespace Totals

/-- The running total of integers is the exact sum until a sum of the first terms leaves the words,
and is given up from there on. -/
theorem foldl_stepInts (ns : List Int64) :
    (∃ n, (ns.map Value.int).foldl stepInts (some 0) = some n ∧ n.toInt = integerSum ns ∧
        ∀ p, p <+: ns → fitsWord 64 (integerSum p)) ∨
      ((ns.map Value.int).foldl stepInts (some 0) = none ∧
        ¬ ∀ p, p <+: ns → fitsWord 64 (integerSum p)) := by
  induction ns using List.reverseRecOn with
  | nil =>
    refine .inl ⟨0, rfl, rfl, fun p hp => ?_⟩
    obtain rfl := List.prefix_nil.mp hp
    decide
  | append_singleton ns n ih =>
    -- The induction is on the last term: the first terms are the longest shorter prefix.
    rw [List.map_append, List.foldl_append]
    rcases ih with ⟨m, hm, hsum, hfits⟩ | ⟨hnone, hover⟩
    · have hstep : [Value.int n].foldl stepInts (some m) = int64At? (integerSum (ns ++ [n])) := by
        rw [integerSum_concat, ← hsum]
        rfl
      rw [List.map_singleton, hm, hstep, int64At?]
      by_cases hlast : fitsWord 64 (integerSum (ns ++ [n])) = true
      · rw [if_pos hlast]
        refine .inl ⟨_, rfl, toInt_ofInt_of_fitsWord hlast, fun p hp => ?_⟩
        rcases List.prefix_concat_iff.mp hp with rfl | hp
        · exact hlast
        · exact hfits p hp
      · rw [if_neg hlast]
        exact .inr ⟨rfl, fun h => hlast (h _ List.prefix_rfl)⟩
    · rw [hnone]
      exact .inr ⟨rfl, fun h => hover fun p hp => h p (hp.trans (List.prefix_append ..))⟩

theorem foldl_stepDecimals_ints {ns : List Int64}
    (h : ∀ p, p <+: ns → (integerSum p).natAbs < mantissaLimit) :
    (ns.map Value.int).foldl stepDecimals (some .zero) =
      some (.whole (integerSum ns) (h ns List.prefix_rfl)) := by
  induction ns using List.reverseRecOn with
  | nil => rfl
  | append_singleton ns n ih =>
    have hinit := ih fun p hp => h p (hp.trans (List.prefix_append ..))
    have hlast := h (ns ++ [n]) List.prefix_rfl
    simp only [integerSum_concat] at hlast ⊢
    rw [List.map_append, List.foldl_append, hinit]
    exact Decimal.sum?_whole hlast

end Totals

namespace Aggregate

theorem sum_apply_ints {ns : List Int64} (hne : ns ≠ [])
    (h : ∀ p, p <+: ns → (integerSum p).natAbs < mantissaLimit) :
    (∃ n, n.toInt = integerSum ns ∧ sum.apply (ns.map .int) = .ok (.int n) ∧
        ∀ p, p <+: ns → fitsWord 64 (integerSum p)) ∨
      (sum.apply (ns.map .int) = .ok (.decimal (.whole (integerSum ns) (h ns List.prefix_rfl))) ∧
        ¬ ∀ p, p <+: ns → fitsWord 64 (integerSum p)) := by
  have hnumbers : ∀ v ∈ ns.map Value.int, v.isNumber := by
    intro v hv
    obtain ⟨n, _, rfl⟩ := List.mem_map.mp hv
    rfl
  obtain ⟨t, ht, hints, hdecimals, hfloat, hdecimal⟩ :=
    sum_apply (mt List.map_eq_nil_iff.mp hne) hnumbers
  have hfloat : t.sawFloat = false := by simp [hfloat, Value.isFloat]
  have hdecimal : t.sawDecimal = false := by simp [hdecimal, Value.isDecimal]
  rw [Totals.foldl_stepDecimals_ints h] at hdecimals
  rw [ht, Totals.sum, hfloat, hdecimal, hdecimals]
  -- No decimal and no binary number was seen: the integers come first, then the decimals.
  rcases Totals.foldl_stepInts ns with ⟨n, hn, hsum, hfits⟩ | ⟨hnone, hover⟩
  · rw [hints, hn]
    exact .inl ⟨n, hsum, rfl, hfits⟩
  · rw [hints, hnone]
    exact .inr ⟨rfl, hover⟩

theorem total_sum_apply_ints {ns : List Int64} (hne : ns ≠ [])
    (h : ∀ p, p <+: ns → (integerSum p).natAbs < mantissaLimit) :
    ∃ v, sum.apply (ns.map .int) = .ok v ∧
      Total.ofValue? v = some (.number (.whole (integerSum ns) (h ns List.prefix_rfl))) := by
  rcases sum_apply_ints hne h with ⟨n, hsum, hv, -⟩ | ⟨hv, -⟩
  · refine ⟨_, hv, ?_⟩
    simp only [Total.ofValue?, Value.asDecimal?, Decimal.ofInt64_eq_whole, hsum]
    rfl
  · exact ⟨_, hv, rfl⟩

/-- A sum of integers whose running totals are in range of decimals is exact: an integer if each
running total is a 64-bit word, and a decimal if not. In any order it is the same total. -/
theorem sum_of_ints {ns : List Int64} (hne : ns ≠ [])
    (h : ∀ p, p <+: ns → (integerSum p).natAbs < mantissaLimit) :
    ((∀ p, p <+: ns → fitsWord 64 (integerSum p)) →
      ∃ n, sum.apply (ns.map .int) = .ok (.int n) ∧ n.toInt = integerSum ns) ∧
    ((¬ ∀ p, p <+: ns → fitsWord 64 (integerSum p)) →
      ∃ d, sum.apply (ns.map .int) = .ok (.decimal d) ∧ d.signed = integerSum ns ∧ d.scale = 0) ∧
    ∀ ms, ms.Perm ns → (∀ p, p <+: ms → (integerSum p).natAbs < mantissaLimit) →
      ∃ v w x, sum.apply (ns.map .int) = .ok v ∧ sum.apply (ms.map .int) = .ok w ∧
        Total.ofValue? v = some (.number x) ∧ Total.ofValue? w = some (.number x) ∧
        x.signed = integerSum ns ∧ x.scale = 0 := by
  refine ⟨fun hfits => ?_, fun hover => ?_, fun ms hperm hms => ?_⟩
  · rcases sum_apply_ints hne h with ⟨n, hsum, hv, -⟩ | ⟨-, hover⟩
    · exact ⟨n, hv, hsum⟩
    · exact absurd hfits hover
  · rcases sum_apply_ints hne h with ⟨n, -, -, hfits⟩ | ⟨hv, -⟩
    · exact absurd hfits hover
    · exact ⟨_, hv, Decimal.whole_signed _, rfl⟩
  · obtain ⟨v, hv, hvx⟩ := total_sum_apply_ints hne h
    obtain ⟨w, hw, hwx⟩ := total_sum_apply_ints (fun hnil => hne (hnil ▸ hperm).symm.eq_nil) hms
    simp only [integerSum_perm hperm] at hwx
    exact ⟨v, w, _, hv, hw, hvx, hwx, Decimal.whole_signed _, rfl⟩

/-- The greatest word, one more and one less. -/
def rising : List Int64 := [Int64.maxValue, 1, -1]

/-- The same integers in an order that stays within the words. -/
def falling : List Int64 := [Int64.maxValue, -1, 1]

theorem sum_of_ints_of_rising :
    (∃ d, sum.apply (rising.map .int) = .ok (.decimal d) ∧ d.signed = integerSum rising ∧
      d.scale = 0) ∧
    (∃ n, sum.apply (falling.map .int) = .ok (.int n) ∧ n.toInt = integerSum falling) ∧
    ∃ v w x, sum.apply (rising.map .int) = .ok v ∧ sum.apply (falling.map .int) = .ok w ∧
      Total.ofValue? v = some (.number x) ∧ Total.ofValue? w = some (.number x) ∧
      x.signed = integerSum rising ∧ x.scale = 0 := by
  have hrising : ∀ p, p <+: rising → (integerSum p).natAbs < mantissaLimit := by
    simp only [← List.mem_inits]
    decide +kernel
  have hfalling : ∀ p, p <+: falling → (integerSum p).natAbs < mantissaLimit := by
    simp only [← List.mem_inits]
    decide +kernel
  have hover : ¬ ∀ p, p <+: rising → fitsWord 64 (integerSum p) := by
    simp only [← List.mem_inits]
    decide +kernel
  have hfits : ∀ p, p <+: falling → fitsWord 64 (integerSum p) := by
    simp only [← List.mem_inits]
    decide +kernel
  have hperm : falling.Perm rising := .cons _ (.swap ..)
  have hsum := sum_of_ints (by decide) hrising
  exact ⟨hsum.2.1 hover, (sum_of_ints (by decide) hfalling).1 hfits,
    hsum.2.2 falling hperm hfalling⟩

end Aggregate

/-! ## Sums with decimals -/

/-- The exact sum in units of the last place of a decimal. -/
def unitsSum (vs : List Value) : Int := (vs.map Value.units).sum

theorem unitsSum_concat (vs : List Value) (v : Value) :
    unitsSum (vs ++ [v]) = unitsSum vs + v.units := by
  simp [unitsSum]

namespace Totals

open Decimal

theorem stepDecimals_of_isExact {v : Value} (h : v.isExact) (x : Decimal) :
    ∃ d, d.units = v.units ∧ stepDecimals (some x) v = x.sum? d := by
  obtain ⟨d, hd, hunits⟩ := Value.asDecimal?_of_isExact h
  exact ⟨d, hunits, by simp [stepDecimals, hd]⟩

theorem foldl_stepDecimals_none (vs : List Value) : vs.foldl stepDecimals none = none := by
  induction vs with
  | nil => rfl
  | cons v vs ih => exact ih

/-- The running total is exact as long as the exact one has a decimal form. -/
theorem foldl_stepDecimals_exact {vs : List Value} (hexact : ∀ v ∈ vs, v.isExact)
    (h : ∀ p, p <+: vs → Representable (unitsSum p)) :
    ∃ d, vs.foldl stepDecimals (some .zero) = some d ∧ d.units = unitsSum vs := by
  induction vs using List.reverseRecOn with
  | nil => exact ⟨.zero, rfl, rfl⟩
  | append_singleton vs v ih =>
    obtain ⟨x, hx, hunits⟩ := ih (fun w hw => hexact w (List.mem_append_left _ hw))
      fun p hp => h p (hp.trans (List.prefix_append ..))
    obtain ⟨y, hy, hstep⟩ := stepDecimals_of_isExact (hexact v (by simp)) x
    have hlast := h (vs ++ [v]) List.prefix_rfl
    rw [unitsSum_concat, ← hunits, ← hy] at hlast ⊢
    obtain ⟨z, hz, hsum⟩ := sum?_of_representable hlast
    rw [List.foldl_append, hx]
    exact ⟨z, hstep.trans hz, hsum⟩

/-- From the first exact total that is out of range on there is no running total. -/
theorem foldl_stepDecimals_outOfRange {vs p : List Value} {v : Value}
    (hexact : ∀ w ∈ vs, w.isExact) (hp : p ++ [v] <+: vs)
    (h : ∀ q, q <+: p → Representable (unitsSum q)) (hout : OutOfRange (unitsSum (p ++ [v]))) :
    vs.foldl stepDecimals (some .zero) = none := by
  -- The total over `p` is exact, the next term gives it up, and no later one brings it back.
  obtain ⟨rest, rfl⟩ := hp
  obtain ⟨x, hx, hunits⟩ := foldl_stepDecimals_exact (fun w hw => hexact w (by simp [hw])) h
  obtain ⟨y, hy, hstep⟩ := stepDecimals_of_isExact (hexact v (by simp)) x
  rw [unitsSum_concat, ← hunits, ← hy, ← sum?_eq_none_iff] at hout
  have hnone : [v].foldl stepDecimals (some x) = none := hstep.trans hout
  rw [List.foldl_append, List.foldl_append, hx, hnone]
  exact foldl_stepDecimals_none rest

/-- A running total is off by at most half a whole number for each value. -/
theorem foldl_stepDecimals_near {vs : List Value} {d : Decimal} (hexact : ∀ v ∈ vs, v.isExact)
    (h : vs.foldl stepDecimals (some .zero) = some d) :
    2 * (d.units - unitsSum vs).natAbs ≤ vs.length * tenTo scaleLimit := by
  induction vs using List.reverseRecOn generalizing d with
  | nil =>
    cases h
    exact Nat.zero_le _
  | append_singleton vs v ih =>
    rw [List.foldl_append] at h
    cases hx : vs.foldl stepDecimals (some .zero) with
    | none =>
      rw [hx] at h
      cases h
    | some x =>
      rw [hx] at h
      have hnear := ih (fun w hw => hexact w (List.mem_append_left _ hw)) hx
      obtain ⟨y, hy, hstep⟩ := stepDecimals_of_isExact (hexact v (by simp)) x
      -- The last addition is off by half a unit of its own last place, never more than one half.
      have hlast := sum?_near (hstep.symm.trans h)
      have hplaces : tenTo (scaleLimit - d.scale) ≤ tenTo scaleLimit := tenTo_le (Nat.sub_le ..)
      rw [unitsSum_concat, List.length_append, List.length_singleton, Nat.add_mul, Nat.one_mul]
      omega

end Totals

namespace Aggregate

open Decimal

theorem sum_apply_decimals {vs : List Value} (hexact : ∀ v ∈ vs, v.isExact)
    (hdecimal : vs.any Value.isDecimal) :
    ∃ x : Binary64, sum.apply vs =
      .ok (((vs.foldl Totals.stepDecimals (some .zero)).map Value.decimal).getD (.float x)) := by
  have hne : vs ≠ [] := by
    rintro rfl
    cases hdecimal
  obtain ⟨t, ht, -, hdecimals, -, hsaw⟩ :=
    sum_apply hne fun v hv => Value.isNumber_of_isExact (hexact v hv)
  refine ⟨t.floats, ?_⟩
  rw [ht, Totals.sum, hsaw, hdecimal, if_pos rfl, hdecimals]

/-- A sum with a decimal among its terms is a decimal, at most half a whole number off for each
term, or a binary number. While the exact running totals have decimal forms it is exact, and it is
a binary number once such a total is followed by one that is out of range. -/
theorem sum_of_decimals {vs : List Value} (hexact : ∀ v ∈ vs, v.isExact)
    (hdecimal : vs.any Value.isDecimal) :
    ((∃ d, sum.apply vs = .ok (.decimal d) ∧
        2 * (d.units - unitsSum vs).natAbs ≤ vs.length * tenTo scaleLimit) ∨
      ∃ x, sum.apply vs = .ok (.float x)) ∧
    ((∀ p, p <+: vs → Representable (unitsSum p)) →
      ∃ d, sum.apply vs = .ok (.decimal d) ∧ d.units = unitsSum vs) ∧
    ∀ p v, p ++ [v] <+: vs → (∀ q, q <+: p → Representable (unitsSum q)) →
      OutOfRange (unitsSum (p ++ [v])) → ∃ x, sum.apply vs = .ok (.float x) := by
  obtain ⟨x, hx⟩ := sum_apply_decimals hexact hdecimal
  refine ⟨?_, fun h => ?_, fun p v hp h hout => ?_⟩
  · cases htotal : vs.foldl Totals.stepDecimals (some .zero) with
    | none => exact .inr ⟨x, by rw [hx, htotal]; rfl⟩
    | some d =>
      exact .inl ⟨d, by rw [hx, htotal]; rfl, Totals.foldl_stepDecimals_near hexact htotal⟩
  · obtain ⟨d, hd, hunits⟩ := Totals.foldl_stepDecimals_exact hexact h
    exact ⟨d, by rw [hx, hd]; rfl, hunits⟩
  · have hnone := Totals.foldl_stepDecimals_outOfRange hexact hp h hout
    exact ⟨x, by rw [hx, hnone]; rfl⟩

/-- The decimal of a text. -/
def decimalOf (text : String) : Value := (Kind.decimal.read? text).getD .null

def reduced : List Value := [decimalOf "2.5", .int (-1)]

/-- The greatest decimal, one more and one less. -/
def exceeding : List Value := [decimalOf "79228162514264337593543950335", .int 1, .int (-1)]

theorem sum_of_decimals_of_reduced :
    (∀ v ∈ reduced, v.isExact) ∧ reduced.any Value.isDecimal ∧
      (∃ d, sum.apply reduced = .ok (.decimal d) ∧ d.units = unitsSum reduced) ∧
      ∃ x, sum.apply exceeding = .ok (.float x) := by
  have hexact : ∀ v ∈ reduced, v.isExact := by decide
  have hforms : ∀ p, p <+: reduced → Representable (unitsSum p) := by
    intro p hp
    rw [← List.mem_inits] at hp
    simp only [reduced, List.inits, List.map_cons, List.map_nil, List.mem_cons, List.not_mem_nil,
      or_false] at hp
    rcases hp with rfl | rfl | rfl
    · exact ⟨.zero, rfl⟩
    · exact ⟨⟨false, 25, 1, by decide, by decide⟩, by decide +kernel⟩
    · exact ⟨⟨false, 15, 1, by decide, by decide⟩, by decide +kernel⟩
  have hfirst : ∀ q, q <+: exceeding.take 1 → Representable (unitsSum q) := by
    intro q hq
    rw [← List.mem_inits] at hq
    simp only [exceeding, List.take, List.inits, List.map_cons, List.map_nil, List.mem_cons,
      List.not_mem_nil, or_false] at hq
    rcases hq with rfl | rfl
    · exact ⟨.zero, rfl⟩
    · exact ⟨⟨false, mantissaLimit - 1, 0, by decide, by decide⟩, by decide +kernel⟩
  have hout : OutOfRange (unitsSum (exceeding.take 1 ++ [.int 1])) := by
    unfold OutOfRange
    decide +kernel
  exact ⟨hexact, rfl, (sum_of_decimals hexact rfl).2.1 hforms,
    (sum_of_decimals (by decide) rfl).2.2 _ (.int 1) ⟨[.int (-1)], rfl⟩ hfirst hout⟩

/-- A hundred and the third part of one, cut after the last place. -/
def hundredAndThird : List Value :=
  [decimalOf "100", decimalOf "0.3333333333333333333333333333"]

/-- Not every decimal sum is exact: a running total with too many digits is rounded. -/
theorem not_sum_decimals_exact :
    ¬ ∀ vs : List Value, vs ≠ [] → (∀ v ∈ vs, v.isExact) → vs.any Value.isDecimal →
      ∀ d, sum.apply vs = .ok (.decimal d) → d.units = unitsSum vs := by
  intro h
  have hexact : ∀ v ∈ hundredAndThird, v.isExact := by decide
  obtain ⟨x, hx⟩ := sum_apply_decimals hexact rfl
  have htotal : hundredAndThird.foldl Totals.stepDecimals (some .zero) =
      some ⟨false, 10033333333333333333333333333, 26, by decide, by decide⟩ := by
    decide +kernel
  rw [htotal] at hx
  have hunits := h hundredAndThird nofun hexact rfl _ hx
  revert hunits
  decide +kernel

end Aggregate

end DataGrid
