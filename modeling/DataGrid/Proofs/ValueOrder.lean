import DataGrid.Proofs.ExactSums
import Mathlib.Algebra.Order.Field.Basic
import Mathlib.Algebra.Order.Ring.Rat
import Mathlib.Order.Compare

/-!
# The order of values

The values that are comparable with each other lie on one scale, and each scale has an order of
its own: integers and decimals that of the rational numbers they denote, moments that of their
instants. Binary numbers lie on no scale. They compare with every number, but with a decimal as
decimals and with an integer as binary numbers, and between the two they lose the order of
integers that differ in the last digits.
-/

namespace DataGrid

open Number Calendar

/-! ## Exact numbers -/

theorem compare_eq_of_lt_iff {m n : Int} {p q : ℚ} (hlt : m < n ↔ p < q) (hgt : n < m ↔ q < p) :
    Ord.compare m n = Ord.compare p q := by
  rcases lt_trichotomy m n with h | h | h
  · rw [Int.compare_eq_lt.2 h, compare_lt_iff_lt.2 (hlt.1 h)]
  · have heq : p = q :=
      le_antisymm (not_lt.1 fun hq => h.not_gt (hgt.2 hq)) (not_lt.1 fun hp => h.not_lt (hlt.2 hp))
    rw [Int.compare_eq_eq.2 h, compare_eq_iff_eq.2 heq]
  · rw [Int.compare_eq_gt.2 h, compare_gt_iff_gt.2 (hgt.1 h)]

namespace Number.Decimal

/-- The rational number that a decimal denotes. -/
def toRat (x : Decimal) : ℚ := x.signed / tenTo x.scale

theorem toRat_lt_iff (x y : Decimal) :
    x.toRat < y.toRat ↔ x.signed * tenTo y.scale < y.signed * tenTo x.scale := by
  have hx : (0 : ℚ) < tenTo x.scale := Nat.cast_pos.2 (tenTo_pos _)
  have hy : (0 : ℚ) < tenTo y.scale := Nat.cast_pos.2 (tenTo_pos _)
  unfold toRat
  rw [div_lt_div_iff₀ hx hy]
  exact_mod_cast Iff.rfl

theorem compare_eq_toRat (x y : Decimal) : x.compare y = Ord.compare x.toRat y.toRat :=
  compare_eq_of_lt_iff (toRat_lt_iff x y).symm (toRat_lt_iff y x).symm

theorem toRat_ofInt64 (n : Int64) : (ofInt64 n).toRat = n.toInt := by
  unfold toRat
  rw [ofInt64_eq_whole, whole_signed, whole_scale]
  exact div_one _

theorem compare_swap (x y : Decimal) : y.compare x = (x.compare y).swap :=
  Std.OrientedOrd.eq_swap

end Number.Decimal

theorem Number.Binary64.compare?_swap (x y : Binary64) :
    y.compare? x = (x.compare? y).map Ordering.swap := by
  cases x with
  | nan => cases y <;> rfl
  | infinite a =>
    cases y with
    | nan => rfl
    | infinite b => exact congrArg some Std.OrientedOrd.eq_swap
    | finite y => cases a <;> rfl
  | finite x =>
    cases y with
    | nan => rfl
    | infinite b => cases b <;> rfl
    | finite y => exact congrArg some (Std.OrientedOrd.eq_swap (a := y.signed) (b := x.signed))

theorem then_swap (o o' : Ordering) : (o.then o').swap = o.swap.then o'.swap := by
  cases o <;> rfl

namespace Value

/-- The rational number that an integer or a decimal denotes. -/
def rational? : Value → Option ℚ
  | int n => some n.toInt
  | decimal d => some d.toRat
  | _ => none

/-- Integers and decimals compare as the rational numbers they denote, whatever their scales. -/
theorem compare?_rational {a b : Value} {p q : ℚ} (ha : a.rational? = some p)
    (hb : b.rational? = some q) : a.compare? b = some (Ord.compare p q) := by
  cases a with
  | int m =>
    cases ha
    cases b with
    | int n =>
      cases hb
      exact congrArg some (compare_eq_of_lt_iff Int.cast_lt.symm Int.cast_lt.symm)
    | decimal y =>
      cases hb
      rw [← Decimal.toRat_ofInt64, ← Decimal.compare_eq_toRat]
      rfl
    | null | bool | float | text | date | time | dateTime | zoned => cases hb
  | decimal x =>
    cases ha
    cases b with
    | int n =>
      cases hb
      rw [← Decimal.toRat_ofInt64, ← Decimal.compare_eq_toRat]
      rfl
    | decimal y =>
      cases hb
      exact congrArg some (Decimal.compare_eq_toRat x y)
    | null | bool | float | text | date | time | dateTime | zoned => cases hb
  | null | bool | float | text | date | time | dateTime | zoned => cases ha

/-! ## Both ways -/

theorem compareDecimals?_swap (a b : Value) :
    compareDecimals? b a = (compareDecimals? a b).map Ordering.swap := by
  unfold compareDecimals?
  cases a.asDecimal? with
  | none => cases b.asDecimal? <;> rfl
  | some x =>
    cases b.asDecimal? with
    | none => rfl
    | some y => exact congrArg some (Decimal.compare_swap x y)

theorem compareBinary?_swap (a b : Value) :
    compareBinary? b a = (compareBinary? a b).map Ordering.swap := by
  unfold compareBinary?
  cases a.asBinary64? with
  | none => cases b.asBinary64? <;> rfl
  | some x =>
    cases b.asBinary64? with
    | none => rfl
    | some y => exact Binary64.compare?_swap x y

/-- Two values compare one way and the other, or neither way. -/
theorem compare?_swap (a b : Value) : b.compare? a = (a.compare? b).map Ordering.swap := by
  cases a <;> cases b
  case bool.bool => exact congrArg some Std.OrientedOrd.eq_swap
  case int.int => exact congrArg some Std.OrientedOrd.eq_swap
  case text.text => exact congrArg some Std.OrientedOrd.eq_swap
  case date.date => exact congrArg some Std.OrientedOrd.eq_swap
  case decimal.decimal x y => exact congrArg some (Decimal.compare_swap x y)
  case float.float x y => exact Binary64.compare?_swap x y
  case decimal.int | decimal.float | int.decimal | float.decimal =>
    exact compareDecimals?_swap _ _
  case int.float | float.int => exact compareBinary?_swap _ _
  case time.time | dateTime.dateTime | zoned.zoned =>
    refine congrArg some (Eq.trans ?_ (then_swap _ _).symm)
    exact congrArg₂ Ordering.then Std.OrientedOrd.eq_swap Std.OrientedOrd.eq_swap
  all_goals rfl

/-- Equality of values goes both ways. -/
theorem sqlEq_comm (a b : Value) : a.sqlEq b = b.sqlEq a := by
  unfold sqlEq
  rw [compare?_swap b a]
  cases b.compare? a with
  | none => rfl
  | some o => cases o <;> rfl

/-! ## Scales -/

/-- The orders by which values other than binary numbers compare. -/
inductive Scale where
  | bool | number | text | date | time | moment | instant
  deriving DecidableEq

/-- The scale of a value; none for null and for binary numbers. -/
def scale? : Value → Option Scale
  | bool _ => some .bool
  | int _ | decimal _ => some .number
  | text _ => some .text
  | date _ => some .date
  | time _ => some .time
  | dateTime _ => some .moment
  | zoned _ => some .instant
  | null | float _ => none

def boolKey : Value → Option Bool
  | bool b => some b
  | _ => none

def dayKey : Value → Option Int
  | date d => some d.dayNumber
  | _ => none

def secondKey : Value → Option Nat
  | time t => some t.second
  | _ => none

def epochKey : Value → Option Int
  | dateTime m => some m.epochSecond
  | zoned m => some m.epochSecond
  | _ => none

def nanoKey : Value → Option Nat
  | time t => some t.nano
  | dateTime m => some m.time.nano
  | zoned m => some m.wall.time.nano
  | _ => none

/-- The order of the values of a scale. -/
def compareAs : Scale → Value → Value → Ordering
  | .bool => compareOn boolKey
  | .number => compareOn rational?
  | .text => compareOn asText?
  | .date => compareOn dayKey
  | .time => compareLex (compareOn secondKey) (compareOn nanoKey)
  | .moment | .instant => compareLex (compareOn epochKey) (compareOn nanoKey)

instance transCmp_compareAs (s : Scale) : Std.TransCmp (compareAs s) := by
  cases s <;> unfold compareAs <;> infer_instance

theorem exists_rational? {a : Value} (h : a.scale? = some .number) : ∃ p, a.rational? = some p := by
  cases a with
  | int | decimal => exact ⟨_, rfl⟩
  | null | bool | float | text | date | time | dateTime | zoned => cases h

/-- The values of a scale are ordered by the order of the scale. -/
theorem compare?_eq_compareAs {s : Scale} {a b : Value} (ha : a.scale? = some s)
    (hb : b.scale? = some s) : a.compare? b = some (compareAs s a b) := by
  cases s with
  | number =>
    obtain ⟨p, hp⟩ := exists_rational? ha
    obtain ⟨q, hq⟩ := exists_rational? hb
    rw [compare?_rational hp hq, compareAs, compareOn, hp, hq]
    rfl
  | bool | text | date | time | moment | instant =>
    cases a <;> cases ha
    all_goals cases b <;> cases hb
    all_goals rfl

/-- Values that are no binary numbers are comparable only if they lie on one scale. -/
theorem exists_scale {a b : Value} {o : Ordering} (ha : a.isFloat = false) (hb : b.isFloat = false)
    (h : a.compare? b = some o) : ∃ s, a.scale? = some s ∧ b.scale? = some s := by
  cases a with
  | null => cases b <;> cases h
  | float x => cases ha
  | _ =>
    cases b with
    | float y => cases hb
    | _ => first | exact ⟨_, rfl, rfl⟩ | cases h

/-- Whatever beats a value also beats what does not beat that value. -/
theorem compareAs_trans {s : Scale} {wins : Ordering} {a b c : Value} (hwins : wins ≠ .eq)
    (hab : compareAs s a b = wins) (hcb : compareAs s c b ≠ wins) : compareAs s a c = wins := by
  have hswap : compareAs s b c = (compareAs s c b).swap := Std.OrientedCmp.eq_swap
  cases wins with
  | eq => exact absurd rfl hwins
  | lt =>
    refine Std.TransCmp.lt_of_lt_of_isLE hab ?_
    rw [hswap]
    revert hcb
    cases compareAs s c b <;> decide
  | gt =>
    refine Std.TransCmp.gt_of_gt_of_isGE hab ?_
    rw [hswap]
    revert hcb
    cases compareAs s c b <;> decide

/-- Among values that are no binary numbers, being comparable is transitive, and so is the order. -/
theorem compare?_trans {a b c : Value} {o o' : Ordering} (ha : a.isFloat = false)
    (hb : b.isFloat = false) (hc : c.isFloat = false) (hab : a.compare? b = some o)
    (hbc : b.compare? c = some o') :
    ∃ r, a.compare? c = some r ∧
      (o ≠ .gt → o' ≠ .gt → r ≠ .gt ∧ (o = .lt ∨ o' = .lt → r = .lt)) := by
  obtain ⟨s, hsa, hsb⟩ := exists_scale ha hb hab
  obtain ⟨t, htb, hsc⟩ := exists_scale hb hc hbc
  obtain rfl : s = t := Option.some.inj (hsb.symm.trans htb)
  rw [compare?_eq_compareAs hsa hsb, Option.some.injEq] at hab
  rw [compare?_eq_compareAs hsb hsc, Option.some.injEq] at hbc
  subst hab hbc
  refine ⟨compareAs s a c, compare?_eq_compareAs hsa hsc, fun hab hbc => ?_⟩
  replace hab := Ordering.isLE_iff_ne_gt.2 hab
  replace hbc := Ordering.isLE_iff_ne_gt.2 hbc
  refine ⟨Ordering.isLE_iff_ne_gt.1 (Std.TransCmp.isLE_trans hab hbc), ?_⟩
  rintro (hlt | hlt)
  · exact Std.TransCmp.lt_of_lt_of_isLE hlt hbc
  · exact Std.TransCmp.lt_of_isLE_of_lt hab hlt

/-- **Values compare coherently.** Any two values compare one way as they do the other, and so
equality is symmetric. Integers and decimals compare as the rational numbers they denote. Apart
from binary numbers, two values that are comparable with a third are comparable, and the order
goes through; null is comparable with nothing. -/
theorem compare?_coherent :
    (∀ a b : Value, b.compare? a = (a.compare? b).map Ordering.swap ∧ a.sqlEq b = b.sqlEq a) ∧
    (∀ (a b : Value) (p q : ℚ), a.rational? = some p → b.rational? = some q →
      a.compare? b = some (Ord.compare p q)) ∧
    (∀ a b c : Value, a.isFloat = false → b.isFloat = false → c.isFloat = false →
      ∀ o o', a.compare? b = some o → b.compare? c = some o' →
        ∃ r, a.compare? c = some r ∧
          (o ≠ .gt → o' ≠ .gt → r ≠ .gt ∧ (o = .lt ∨ o' = .lt → r = .lt))) ∧
    ∀ a : Value, null.compare? a = none ∧ a.compare? null = none := by
  refine ⟨fun a b => ⟨compare?_swap a b, sqlEq_comm a b⟩, ?_, ?_, ?_⟩
  · intro a b p q ha hb
    exact compare?_rational ha hb
  · intro a b c ha hb hc o o' hab hbc
    exact compare?_trans ha hb hc hab hbc
  · intro a
    cases a <;> exact ⟨rfl, rfl⟩

def twoAndHalf : Decimal := ⟨false, 25, 1, by decide, by decide⟩

/-- The same value with one more place. -/
def twoAndFifty : Decimal := ⟨false, 250, 2, by decide, by decide⟩

theorem compare?_coherent_of_prices :
    (int 2).compare? (decimal twoAndHalf) = some (Ord.compare (2 : ℚ) twoAndHalf.toRat) ∧
    (decimal twoAndHalf).compare? (decimal twoAndFifty) = some .eq ∧
    (int 2).compare? (decimal twoAndFifty) = some .lt := by
  have hless : (int 2).compare? (decimal twoAndHalf) = some .lt := by decide
  have hsame : (decimal twoAndHalf).compare? (decimal twoAndFifty) = some .eq := by decide
  obtain ⟨r, hr, hle⟩ := compare?_coherent.2.2.1 _ _ _ rfl rfl rfl _ _ hless hsame
  refine ⟨compare?_coherent.2.1 _ _ _ _ rfl rfl, hsame, ?_⟩
  rw [hr, (hle (by decide) (by decide)).2 (.inl rfl)]

end Value

end DataGrid
