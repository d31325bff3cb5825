import DataGrid.Store

/-!
# Equality of field values

Documents equal themselves and are equal both ways, and so are field values, for which numbers
are compared as binary numbers. Null equals nothing but null.
-/

namespace DataGrid

namespace JsonNumber

theorem structEq_self (a : JsonNumber) : a.structEq a = true := by
  cases a with
  | integer n => exact beq_self_eq_true n
  | real x =>
    show (Ord.compare x.signed x.signed == .eq) = true
    rw [Std.ReflOrd.compare_self]
    rfl

theorem structEq_comm (a b : JsonNumber) : a.structEq b = b.structEq a := by
  cases a with
  | integer m =>
    cases b with
    | integer n => exact Bool.beq_comm
    | real y => rfl
  | real x =>
    cases b with
    | integer n => rfl
    | real y =>
      show (Ord.compare x.signed y.signed == .eq) = (Ord.compare y.signed x.signed == .eq)
      rw [Std.OrientedOrd.eq_swap (a := x.signed)]
      cases Ord.compare y.signed x.signed <;> rfl

end JsonNumber

namespace Json

mutual

theorem structEq_self : ∀ a : Json, a.structEq a = true
  | .null => by simp [structEq]
  | .bool b => by simp [structEq]
  | .number n => by rw [structEq]; exact n.structEq_self
  | .string s => by simp [structEq]
  | .array items => by rw [structEq]; exact itemsEq_self items
  | .object fields => by rw [structEq]; exact fieldsEq_self fields

theorem itemsEq_self : ∀ items : List Json, itemsEq items items = true
  | [] => by rw [itemsEq]
  | a :: as => by rw [itemsEq, structEq_self a, itemsEq_self as]; rfl

theorem fieldsEq_self : ∀ fields : List (String × Json), fieldsEq fields fields = true
  | [] => by rw [fieldsEq]
  | (n, a) :: rest => by rw [fieldsEq, beq_self_eq_true, structEq_self a, fieldsEq_self rest]; rfl

end

mutual

theorem structEq_comm : ∀ a b : Json, a.structEq b = b.structEq a
  | .null, b => by cases b <;> simp [structEq]
  | .bool x, b => by
    cases b with
    | bool y => rw [structEq, structEq]; exact Bool.beq_comm
    | _ => simp [structEq]
  | .number m, b => by
    cases b with
    | number n => rw [structEq, structEq]; exact m.structEq_comm n
    | _ => simp [structEq]
  | .string x, b => by
    cases b with
    | string y => rw [structEq, structEq]; exact Bool.beq_comm
    | _ => simp [structEq]
  | .array as, b => by
    cases b with
    | array bs => rw [structEq, structEq]; exact itemsEq_comm as bs
    | _ => simp [structEq]
  | .object as, b => by
    cases b with
    | object bs => rw [structEq, structEq]; exact fieldsEq_comm as bs
    | _ => simp [structEq]

theorem itemsEq_comm : ∀ as bs : List Json, itemsEq as bs = itemsEq bs as
  | [], [] => rfl
  | [], _ :: _ => by simp [itemsEq]
  | _ :: _, [] => by simp [itemsEq]
  | a :: as, b :: bs => by rw [itemsEq, itemsEq, structEq_comm a b, itemsEq_comm as bs]

theorem fieldsEq_comm : ∀ as bs : List (String × Json), fieldsEq as bs = fieldsEq bs as
  | [], [] => rfl
  | [], _ :: _ => by simp [fieldsEq]
  | _ :: _, [] => by simp [fieldsEq]
  | (n, a) :: as, (m, b) :: bs => by
    have hname : (n == m) = (m == n) := Bool.beq_comm
    rw [fieldsEq, fieldsEq, hname, structEq_comm a b, fieldsEq_comm as bs]

end

/-- A field value equals itself. -/
theorem sameValue_self (a : Json) : a.sameValue a = true := by
  cases a with
  | number n =>
    show (Ord.compare n.toFinite.signed n.toFinite.signed == .eq) = true
    rw [Std.ReflOrd.compare_self]
    rfl
  | _ => exact structEq_self _

/-- Field values are equal both ways. -/
theorem sameValue_comm (a b : Json) : a.sameValue b = b.sameValue a := by
  cases a with
  | number m =>
    cases b with
    | number n =>
      have hswap : m.compare n = (n.compare m).swap :=
        Std.OrientedOrd.eq_swap (a := m.toFinite.signed) (b := n.toFinite.signed)
      show (m.compare n == .eq) = (n.compare m == .eq)
      rw [hswap]
      cases n.compare m <;> rfl
    | _ => exact structEq_comm _ _
  | _ => cases b <;> exact structEq_comm _ _

theorem isNull_eq_of_sameValue {a b : Json} (h : a.sameValue b = true) : a.isNull = b.isNull := by
  cases a <;> cases b <;> first | rfl | simp [sameValue, structEq] at h

end Json

end DataGrid
