import DataGrid.Proofs.DuplicateRows
import DataGrid.Proofs.NumberReadings

/-!
# Duplicates and readings

A check for duplicates compares the stored values as they stand, and a filter for equal values
compares their readings as values of the column's kind. The two notions agree on texts in free
text and on the plain numbers of each numeric kind. They part where integers need more binary
digits than a binary number has, and where one value is stored in two forms.
-/

namespace DataGrid

open Number

namespace Json

/-- Whether the stored value is in the one form that its kind calls for. -/
def Plain (kind : Kind) : Json → Prop
  | null => True
  | string _ => kind = .text
  | number n => n.Plain kind
  | bool _ | array _ | object _ => False

/-- Plain values other than null are equal exactly when their readings are. -/
theorem Plain.sameValue_iff {kind : Kind} {a b : Json} (ha : a.Plain kind) (hb : b.Plain kind)
    (hanull : a.isNull = false) (hbnull : b.isNull = false) :
    a.sameValue b = true ↔ (a.readAs kind).sqlEq (b.readAs kind) = true := by
  unfold Value.sqlEq
  cases a with
  | null => cases hanull
  | bool _ | array _ | object _ => exact ha.elim
  | string s =>
    cases b with
    | null => cases hbnull
    | bool _ | array _ | object _ => exact hb.elim
    | number n => cases ha; exact hb.elim
    | string t =>
      cases ha
      show (s == t) = true ↔ (some (Ord.compare s t) == some .eq) = true
      rw [beq_iff_eq, beq_iff_eq, Option.some_inj, Std.compare_eq_iff_eq]
  | number m =>
    cases b with
    | null => cases hbnull
    | bool _ | array _ | object _ => exact hb.elim
    | string t => cases hb; exact ha.elim
    | number n =>
      show (m.compare n == .eq) = true ↔
        ((m.readAs kind).compare? (n.readAs kind) == some .eq) = true
      rw [JsonNumber.compare?_readAs ha hb, beq_iff_eq, beq_iff_eq, Option.some_inj]

end Json

theorem Value.null_sqlEq (v : Value) : Value.null.sqlEq v = false := by
  cases v <;> rfl

theorem Value.sqlEq_null (v : Value) : v.sqlEq .null = false := by
  cases v <;> rfl

namespace Record

variable {path : Path} {kind : Kind} {a b : Record}

theorem read_eq_null (h : ¬ HasValue path a) : a.read path kind = .null := by
  unfold Record.read
  cases hv : a.lookup? path.segments with
  | none => rfl
  | some v =>
    cases v with
    | null => rfl
    | _ => exact absurd ⟨_, hv, rfl⟩ h

theorem read_of_lookup {v : Json} (h : a.lookup? path.segments = some v) :
    a.read path kind = v.readAs kind := by
  unfold Record.read
  rw [h]

/-- Whether the value of a row at a path, if it has one, is plain. -/
def PlainAt (kind : Kind) (path : Path) (row : Record) : Prop :=
  ∀ v, row.lookup? path.segments = some v → v.Plain kind

/-- Rows with plain values share a value exactly when their readings are equal. -/
theorem shares_iff_sqlEq (ha : PlainAt kind path a) (hb : PlainAt kind path b) :
    Shares path a b ↔ (a.read path kind).sqlEq (b.read path kind) = true := by
  by_cases hva : HasValue path a
  · by_cases hvb : HasValue path b
    · obtain ⟨v, hv, hvnull⟩ := hva
      obtain ⟨w, hw, hwnull⟩ := hvb
      rw [read_of_lookup hv, read_of_lookup hw,
        ← (ha v hv).sameValue_iff (hb w hw) hvnull hwnull]
      constructor
      · rintro ⟨v', w', hv', hw', -, hsame⟩
        cases hv.symm.trans hv'
        cases hw.symm.trans hw'
        exact hsame
      · intro hsame
        exact ⟨v, w, hv, hw, hvnull, hsame⟩
    · rw [read_eq_null hvb, Value.sqlEq_null]
      exact ⟨fun h => absurd h.symm.hasValue hvb, fun h => absurd h Bool.false_ne_true⟩
  · rw [read_eq_null hva, Value.null_sqlEq]
    exact ⟨fun h => absurd h.hasValue hva, fun h => absurd h Bool.false_ne_true⟩

end Record

/-- The check for duplicates on a column with a path compares stored values. -/
theorem Strategy.build_isDuplicated {s : Strategy} (hlegal : Operator.isDuplicated ∈ s.legal)
    {column : ColumnState} {path : Path} (hpath : column.expression.bind Path.parse? = some path)
    (ctx : Context) (value : Option Value) :
    s.build ctx column value .isDuplicated = .ok (some (duplicatePredicate ctx path true)) :=
  build_eq hlegal hpath (.inr rfl) ctx

namespace Store

/-- **Where stored values are plain, duplicates are equal readings.** The predicate for duplicates
keeps a row of the base query if and only if another one has an equal value, read as a value of
the kind. Plain are all texts in free text, all numbers in a binary kind, and elsewhere integers
of up to 53 binary digits; in an integral kind also numbers that are no 64-bit words. -/
theorem isDuplicated_iff_sqlEq (store : Store) {ctx : Context} {rows : List Record}
    (h : store.fetch (ctx.base.ordered []) = .ok rows) {s : Strategy}
    (hlegal : Operator.isDuplicated ∈ s.legal) {column : ColumnState} {path : Path}
    (hpath : column.expression.bind Path.parse? = some path)
    (hplain : ∀ row ∈ rows, Record.PlainAt s.kind path row) (value : Option Value) :
    ∃ p, s.build ctx column value .isDuplicated = .ok (some p) ∧
      ∀ i : Fin rows.length, store.holds p (rows.get i) = .ok true ↔
        ∃ j : Fin rows.length, j ≠ i ∧
          ((rows.get i).read path s.kind).sqlEq ((rows.get j).read path s.kind) = true := by
  refine ⟨_, Strategy.build_isDuplicated hlegal hpath ctx value, ?_⟩
  intro i
  obtain ⟨b, hb, hholds, -⟩ := store.holds_duplicate_iff (store.select_of_fetch_unordered h) path i
  have hshares : ∀ j : Fin rows.length, Record.Shares path (rows.get i) (rows.get j) ↔
      ((rows.get i).read path s.kind).sqlEq ((rows.get j).read path s.kind) = true := fun j =>
    Record.shares_iff_sqlEq (hplain _ (rows.get_mem i)) (hplain _ (rows.get_mem j))
  have hkept : store.holds (Strategy.duplicatePredicate ctx path true) (rows.get i) = .ok b := hholds
  rw [hkept, Except.ok.injEq, hb]
  simp only [← hshares]
  rfl

/-- Accounts and their numbers. -/
def numbered (numbers : List Int) : List Record :=
  numbers.map fun n => [("number", .number (.integer n))]

def accounts (numbers : List Int) : Store := ⟨[("accounts", numbered numbers)]⟩

def numberColumn : Column := (Column.ofExpression "number" .long).enableFilter true

theorem fetch_accounts (numbers : List Int) :
    (accounts numbers).fetch ((Context.ofEntity "accounts").base.ordered []) =
      .ok (numbered numbers) := by
  rw [fetch_unordered _ rfl]
  exact select_unfiltered _ rfl rfl

theorem isDuplicated_iff_sqlEq_of_accounts :
    Operator.isDuplicated ∈ Operator.ordered ∧
      numberColumn.expression.bind Path.parse? = some ⟨["number"]⟩ ∧
      (∀ row ∈ numbered [7, 9007199254740992, 7], Record.PlainAt .long ⟨["number"]⟩ row) ∧
      ∃ p, Strategy.build ⟨.long, Operator.ordered⟩ (Context.ofEntity "accounts")
          numberColumn.toColumnState none .isDuplicated = .ok (some p) ∧
        (accounts [7, 9007199254740992, 7]).holds p (numbered [7])[0] = .ok true ∧
        (accounts [7, 9007199254740992, 7]).holds p (numbered [9007199254740992])[0] ≠
          .ok true := by
  have hlegal : Operator.isDuplicated ∈ Operator.ordered := by decide
  have hpath : numberColumn.expression.bind Path.parse? = some ⟨["number"]⟩ := by rfl
  have hplain : ∀ row ∈ numbered [7, 9007199254740992, 7],
      Record.PlainAt .long ⟨["number"]⟩ row := by
    intro row hrow v hv
    obtain ⟨n, hn, rfl⟩ := List.mem_map.1 hrow
    cases hv
    intro _
    simp only [List.mem_cons, List.not_mem_nil, or_false] at hn
    rcases hn with rfl | rfl | rfl <;> decide
  obtain ⟨p, hp, hholds⟩ := isDuplicated_iff_sqlEq (accounts [7, 9007199254740992, 7])
    (fetch_accounts _) (s := ⟨.long, Operator.ordered⟩) hlegal hpath hplain none
  refine ⟨hlegal, hpath, hplain, p, hp, ?_, ?_⟩
  · exact (hholds ⟨0, by decide⟩).2 ⟨⟨2, by decide⟩, by decide, by decide +kernel⟩
  · intro htrue
    obtain ⟨j, hj, heq⟩ := (hholds ⟨1, by decide⟩).1 htrue
    have hother : ∀ j : Fin (numbered [7, 9007199254740992, 7]).length, j ≠ ⟨1, by decide⟩ →
        ((numbered [9007199254740992])[0].read ⟨["number"]⟩ .long).sqlEq
          ((numbered [7, 9007199254740992, 7])[j].read ⟨["number"]⟩ .long) = false := by
      decide +kernel
    exact Bool.false_ne_true ((hother j hj).symm.trans heq)

/-- Beyond 53 binary digits two integers may go through one binary number: then each counts as a
duplicate of the other, though their readings differ. -/
theorem not_isDuplicated_iff_sqlEq :
    ¬ ∀ (store : Store) (ctx : Context) (rows : List Record) (kind : Kind) (s : Strategy)
        (column : ColumnState) (path : Path) (value : Option Value) (p : Predicate),
      store.fetch (ctx.base.ordered []) = .ok rows → kind.strategy? = some s →
      Operator.isDuplicated ∈ s.legal → column.kind = kind →
      column.expression.bind Path.parse? = some path →
      s.build ctx column value .isDuplicated = .ok (some p) →
      ∀ i : Fin rows.length, store.holds p (rows.get i) = .ok true ↔
        ∃ j : Fin rows.length, j ≠ i ∧
          ((rows.get i).read path kind).sqlEq ((rows.get j).read path kind) = true := by
  intro hclaim
  have hiff := hclaim (accounts [9007199254740992, 9007199254740993])
    (Context.ofEntity "accounts") _ .long ⟨.long, Operator.ordered⟩ numberColumn.toColumnState
    ⟨["number"]⟩ none _ (fetch_accounts _) rfl (by decide) rfl rfl rfl ⟨0, by decide⟩
  have hkept : (accounts [9007199254740992, 9007199254740993]).holds
      (Strategy.duplicatePredicate (Context.ofEntity "accounts") ⟨["number"]⟩ true)
      (numbered [9007199254740992])[0] = .ok true := by
    rw [holds_duplicatePredicate _ (select_of_fetch_unordered _ (fetch_accounts _))]
    exact congrArg Except.ok (by decide +kernel)
  obtain ⟨j, hj, heq⟩ := hiff.1 hkept
  have hother : ∀ j : Fin (numbered [9007199254740992, 9007199254740993]).length,
      j ≠ ⟨0, by decide⟩ → ((numbered [9007199254740992])[0].read ⟨["number"]⟩ .long).sqlEq
        ((numbered [9007199254740992, 9007199254740993])[j].read ⟨["number"]⟩ .long) = false := by
    decide +kernel
  exact Bool.false_ne_true ((hother j hj).symm.trans heq)

end Store

end DataGrid
