import DataGrid.Proofs.Selection

/-!
# The order of field values

Values of different types tie, so the order of field values is no order of all values: two
numbers may be told apart while each of them ties with the same text. Among the values of one
type, with null before them, it is the order of a key, and so is the order of rows whose sort
fields are of one type each.
-/

namespace DataGrid

/-- The types of JSON values that are not null. -/
inductive JsonType where
  | bool | number | string | array | object
  deriving DecidableEq

namespace Json

def type? : Json → Option JsonType
  | null => none
  | bool _ => some .bool
  | number _ => some .number
  | string _ => some .string
  | array _ => some .array
  | object _ => some .object

def boolKey : Json → Option Bool
  | bool b => some b
  | _ => none

def numberKey : Json → Option Int
  | number n => some n.toFinite.signed
  | _ => none

def stringKey : Json → Option String
  | string s => some s
  | _ => none

/-- The order of the values of a type, with null before them. -/
def compareAs : JsonType → Json → Json → Ordering
  | .bool => compareOn boolKey
  | .number => compareOn numberKey
  | .string => compareOn stringKey
  | .array | .object => compareOn fun v => !v.isNull

instance transCmp_compareAs (t : JsonType) : Std.TransCmp (compareAs t) := by
  cases t <;> unfold compareAs <;> infer_instance

/-- Among the values of one type the order of field values is that of the type. -/
theorem compare_eq_compareAs {t : JsonType} {a b : Json} (ha : ∀ u, a.type? = some u → u = t)
    (hb : ∀ u, b.type? = some u → u = t) : a.compare b = compareAs t a b := by
  cases a with
  | null =>
    cases b with
    | null => cases t <;> rfl
    | _ => cases hb _ rfl; rfl
  | _ =>
    -- The type of `a` is `t`, so `b` is null or of the constructor of `a`.
    cases ha _ rfl
    cases b with
    | null => rfl
    | _ => first | rfl | cases hb _ rfl

/-- Also values of different types compare one way and the other. -/
instance orientedCmp_compare : Std.OrientedCmp Json.compare where
  eq_swap {a b} := by
    cases a <;> cases b
    case number.number x y =>
      exact Std.OrientedOrd.eq_swap (a := x.toFinite.signed) (b := y.toFinite.signed)
    case string.string x y => exact Std.OrientedOrd.eq_swap (a := x) (b := y)
    case bool.bool x y => exact Std.OrientedOrd.eq_swap (a := x) (b := y)
    all_goals rfl

end Json

/-! ## Clauses -/

section Compare

variable {α β : Type} (cmp : β → β → Ordering) (f : α → β)

theorem orientedCmp_onFun [Std.OrientedCmp cmp] :
    Std.OrientedCmp fun a b => cmp (f a) (f b) where
  eq_swap := Std.OrientedCmp.eq_swap

theorem transCmp_onFun [Std.TransCmp cmp] : Std.TransCmp fun a b => cmp (f a) (f b) where
  eq_swap := Std.OrientedCmp.eq_swap
  isLE_trans := Std.TransCmp.isLE_trans

theorem Direction.orientedCmp_apply (d : Direction) [h : Std.OrientedCmp cmp] :
    Std.OrientedCmp fun a b => d.apply (cmp a b) := by
  cases d with
  | ascending => exact h
  | descending => exact ⟨congrArg Ordering.swap h.eq_swap⟩

theorem Direction.transCmp_apply (d : Direction) [h : Std.TransCmp cmp] :
    Std.TransCmp fun a b => d.apply (cmp a b) := by
  cases d with
  | ascending => exact h
  | descending =>
    have hswap : (fun a b => Direction.descending.apply (cmp a b)) = fun a b => cmp b a := by
      funext a b
      exact h.eq_swap.symm
    rw [hswap]
    exact Std.TransCmp.opposite

end Compare

namespace OrderClause

/-- How a clause orders two rows. -/
def compare (clause : OrderClause) (a b : Record) : Ordering :=
  clause.direction.apply
    ((Store.sortValue a clause.path).compare (Store.sortValue b clause.path))

instance orientedCmp_compare (clause : OrderClause) : Std.OrientedCmp clause.compare :=
  have := orientedCmp_onFun Json.compare fun row => Store.sortValue row clause.path
  clause.direction.orientedCmp_apply _

/-- Whether the field of a row at a clause's path is missing or null. -/
def Blank (clause : OrderClause) (row : Record) : Prop :=
  ∀ v, row.lookup? clause.path.segments = some v → v = .null

theorem sortValue_eq_null {clause : OrderClause} {row : Record} :
    Store.sortValue row clause.path = .null ↔ clause.Blank row := by
  unfold Store.sortValue Blank
  cases row.lookup? clause.path.segments with
  | none => simp
  | some v => simp

/-- Missing and null fields are equal. They come before all others where a clause ascends, and
after all others where it descends. -/
theorem compare_blank {clause : OrderClause} {a b : Record} (ha : clause.Blank a) :
    (clause.Blank b → clause.compare a b = .eq) ∧
      (¬ clause.Blank b → clause.compare a b =
        match clause.direction with
        | .ascending => .lt
        | .descending => .gt) := by
  rw [← sortValue_eq_null] at ha
  rw [← sortValue_eq_null]
  unfold compare
  rw [ha]
  constructor
  · intro hb
    rw [hb]
    cases clause.direction <;> rfl
  · intro hb
    have hlt : Json.null.compare (Store.sortValue b clause.path) = .lt := by
      cases hv : Store.sortValue b clause.path with
      | null => exact absurd hv hb
      | bool _ | number _ | string _ | array _ | object _ => rfl
    rw [hlt]
    cases clause.direction <;> rfl

end OrderClause

/-! ## Rows -/

/-- Whether the fields of rows at a path are all of one type, apart from null and missing ones. -/
def OneTyped (rows : List Record) (path : Path) : Prop :=
  ∃ t : JsonType, ∀ row ∈ rows, ∀ v u, row.lookup? path.segments = some v → v.type? = some u →
    u = t

theorem OneTyped.mono {rows rows' : List Record} {path : Path} (h : OneTyped rows path)
    (hsub : ∀ row ∈ rows', row ∈ rows) : OneTyped rows' path := by
  obtain ⟨t, ht⟩ := h
  exact ⟨t, fun row hrow => ht row (hsub row hrow)⟩

/-- The first clause that tells two rows apart decides; they tie if none does. -/
def firstDifference (clauses : List OrderClause) (a b : Record) : Ordering :=
  ((clauses.map (·.compare a b)).find? (· ≠ .eq)).getD .eq

namespace Store

theorem compareRows_cons (clause : OrderClause) (clauses : List OrderClause) :
    compareRows (clause :: clauses) = compareLex clause.compare (compareRows clauses) := rfl

theorem compareRows_eq_firstDifference (clauses : List OrderClause) (a b : Record) :
    compareRows clauses a b = firstDifference clauses a b := by
  induction clauses with
  | nil => rfl
  | cons clause clauses ih =>
    unfold firstDifference at ih ⊢
    rw [compareRows_cons, List.map_cons, List.find?_cons]
    change (clause.compare a b).then (compareRows clauses a b) = _
    cases clause.compare a b with
    | eq => exact ih
    | lt | gt => rfl

instance orientedCmp_compareRows (clauses : List OrderClause) :
    Std.OrientedCmp (compareRows clauses) := by
  induction clauses with
  | nil => exact ⟨rfl⟩
  | cons clause clauses ih =>
    rw [compareRows_cons]
    infer_instance

/-- Where the sort fields are of one type each, the order of rows is a total preorder. -/
theorem exists_transCmp_compareRows {rows : List Record} {clauses : List OrderClause}
    (h : ∀ clause ∈ clauses, OneTyped rows clause.path) :
    ∃ order : Record → Record → Ordering, Std.TransCmp order ∧
      ∀ a ∈ rows, ∀ b ∈ rows, compareRows clauses a b = order a b := by
  induction clauses with
  | nil => exact ⟨compareRows [], ⟨fun _ _ => rfl⟩, fun _ _ _ _ => rfl⟩
  | cons clause clauses ih =>
    rw [List.forall_mem_cons] at h
    obtain ⟨t, ht⟩ := h.1
    obtain ⟨rest, hrest, hagree⟩ := ih h.2
    have hvalue : ∀ row ∈ rows, ∀ u, (sortValue row clause.path).type? = some u → u = t := by
      intro row hrow u hu
      unfold sortValue at hu
      cases hv : row.lookup? clause.path.segments with
      | none => rw [hv] at hu; cases hu
      | some v => rw [hv] at hu; exact ht row hrow v u hv hu
    have hkey := transCmp_onFun (Json.compareAs t) fun row => sortValue row clause.path
    have hfirst := clause.direction.transCmp_apply (fun a b : Record =>
      Json.compareAs t (sortValue a clause.path) (sortValue b clause.path))
    refine ⟨compareLex (fun a b => clause.direction.apply
      (Json.compareAs t (sortValue a clause.path) (sortValue b clause.path))) rest,
      inferInstance, ?_⟩
    intro a ha b hb
    have hcompare := Json.compare_eq_compareAs (hvalue a ha) (hvalue b hb)
    rw [compareRows_cons]
    unfold compareLex OrderClause.compare
    rw [hcompare, hagree a ha b hb]

end Store

end DataGrid
