import DataGrid.Store

/-!
# Conjunctions and their meaning

`and` is associative because it appends the parts of its operands, and a predicate
means the same as the list of its parts. Both laws carry over to optional
predicates, so a conjunction may be built in any grouping. The meaning of a
conjunction keeps more than its truth: which part fails first is kept as well.
-/

namespace DataGrid

namespace Predicate

@[simp] theorem parts_and (p q : Predicate) : (p.and q).parts = p.parts ++ q.parts := rfl

theorem and_assoc (p q r : Predicate) : (p.and q).and r = p.and (q.and r) := by
  unfold and
  rw [show (all (p.parts ++ q.parts)).parts = p.parts ++ q.parts from rfl,
    show (all (q.parts ++ r.parts)).parts = q.parts ++ r.parts from rfl, List.append_assoc]

@[simp] theorem andOption_none_left (p : Option Predicate) : andOption none p = p := by
  cases p <;> rfl

@[simp] theorem andOption_none_right (p : Option Predicate) : andOption p none = p := by
  cases p <;> rfl

theorem andOption_assoc (p q r : Option Predicate) :
    andOption (andOption p q) r = andOption p (andOption q r) := by
  cases p with
  | none => rw [andOption_none_left, andOption_none_left]
  | some p =>
    cases q with
    | none => rw [andOption_none_right, andOption_none_left]
    | some q =>
      cases r with
      | none => rw [andOption_none_right, andOption_none_right]
      | some r => exact congrArg some (and_assoc p q r)

theorem andOption_eq_none {p q : Option Predicate} :
    andOption p q = none ↔ p = none ∧ q = none := by
  cases p <;> cases q <;> simp [andOption]

/-- Adding predicates one by one to a conjunction adds their conjunction. -/
theorem foldl_andOption (acc : Option Predicate) (ps : List Predicate) :
    ps.foldl (fun acc p => andOption acc (some p)) acc = andOption acc (ofList? ps) := by
  unfold ofList?
  induction ps generalizing acc with
  | nil => rw [List.foldl_nil, List.foldl_nil, andOption_none_right]
  | cons p ps ih =>
    rw [List.foldl_cons, List.foldl_cons, andOption_none_left, ih, ih (some p), andOption_assoc]

theorem ofList?_cons (p : Predicate) (ps : List Predicate) :
    ofList? (p :: ps) = andOption (some p) (ofList? ps) :=
  foldl_andOption (some p) ps

theorem ofList?_append (ps qs : List Predicate) :
    ofList? (ps ++ qs) = andOption (ofList? ps) (ofList? qs) := by
  rw [← foldl_andOption, ofList?, List.foldl_append]
  rfl

theorem ofList?_eq_none {ps : List Predicate} : ofList? ps = none ↔ ps = [] := by
  cases ps with
  | nil => exact ⟨fun _ => rfl, fun _ => rfl⟩
  | cons p ps =>
    rw [ofList?_cons, andOption_eq_none]
    simp

end Predicate

namespace Store

variable (store : Store)

theorem holdsAll_append (ps qs : List Predicate) (row : Record) :
    store.holdsAll (ps ++ qs) row =
      match store.holdsAll ps row with
      | .error e => .error e
      | .ok false => .ok false
      | .ok true => store.holdsAll qs row := by
  induction ps with
  | nil => rfl
  | cons p ps ih =>
    simp only [List.cons_append, holdsAll]
    rcases store.holds p row with e | b
    · rfl
    · cases b with
      | false => rfl
      | true => exact ih

theorem holdsAll_singleton (p : Predicate) (row : Record) :
    store.holdsAll [p] row = store.holds p row := by
  simp only [holdsAll]
  rcases store.holds p row with e | b
  · rfl
  · cases b <;> rfl

/-- A predicate means the same as the list of its parts. -/
theorem holdsAll_parts (p : Predicate) (row : Record) :
    store.holdsAll p.parts row = store.holds p row := by
  cases p with
  | all parts => simp only [Predicate.parts, holds]
  | compare path kind op value => exact holdsAll_singleton store _ row
  | «matches» path op pattern => exact holdsAll_singleton store _ row
  | count counted op bound => exact holdsAll_singleton store _ row

/-- A conjunction tries its second operand only on rows that satisfy the first. -/
theorem holds_and (p q : Predicate) (row : Record) :
    store.holds (p.and q) row =
      match store.holds p row with
      | .error e => .error e
      | .ok false => .ok false
      | .ok true => store.holds q row := by
  rw [← holdsAll_parts, Predicate.parts_and, holdsAll_append, holdsAll_parts, holdsAll_parts]

theorem holdsOption_andOption (p q : Option Predicate) (row : Record) :
    store.holdsOption (Predicate.andOption p q) row =
      match store.holdsOption p row with
      | .error e => .error e
      | .ok false => .ok false
      | .ok true => store.holdsOption q row := by
  cases p with
  | none => rw [Predicate.andOption_none_left]; simp only [holdsOption]
  | some p =>
    cases q with
    | some q => simp only [Predicate.andOption, holdsOption, holds_and]
    | none =>
      simp only [Predicate.andOption, holdsOption]
      rcases store.holds p row with e | b
      · rfl
      · cases b <;> rfl

/-- Of predicates that all have an answer on a row, the conjunction has one too. -/
theorem holdsOption_ofList?_ok {ps : List Predicate} {row : Record}
    (h : ∀ p ∈ ps, ∃ b, store.holds p row = .ok b) :
    ∃ b, store.holdsOption (Predicate.ofList? ps) row = .ok b := by
  induction ps with
  | nil => exact ⟨true, rfl⟩
  | cons p ps ih =>
    rw [Predicate.ofList?_cons, holdsOption_andOption, holdsOption]
    obtain ⟨b, hb⟩ := h p List.mem_cons_self
    rw [hb]
    cases b with
    | false => exact ⟨false, rfl⟩
    | true => exact ih fun q hq => h q (List.mem_cons_of_mem p hq)

end Store

end DataGrid
