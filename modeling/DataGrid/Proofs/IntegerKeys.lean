import DataGrid.Proofs.DuplicateReadings
import DataGrid.Proofs.SortedRows

/-!
# Sorting by integers

Stored numbers are ordered as binary numbers. Rounding an integer to a binary number keeps the
order, but large integers may be merged into one number, and then they tie. Tied rows stay as they
are stored, so the rows that a query by an integer field fetches are in the order of the integers
exactly if the rows with merged integers are stored in this order. No integers of up to 53 binary
digits are merged.
-/

namespace DataGrid

open Number

/-! ## Integers as binary numbers -/

namespace Number.Finite

variable {m n : Int}

theorem signed_ofInt_mono (h : m ≤ n) : (ofInt m).signed ≤ (ofInt n).signed := by
  have hmono : ∀ {a b : Nat}, a ≤ b → nearestCount precision (a * unitsInOne) 1 ≤
      nearestCount precision (b * unitsInOne) 1 := fun hle =>
    nearestCount_mono (by decide) Nat.one_pos (Nat.mul_le_mul_right unitsInOne hle)
  unfold signed ofInt
  by_cases hm : m < 0
  · by_cases hn : n < 0
    · have hcounts := hmono (a := n.natAbs) (b := m.natAbs) (by omega)
      simp only [hm, hn, decide_true, if_true]
      omega
    · simp only [hm, hn, decide_true, decide_false, if_true, Bool.false_eq_true, if_false]
      omega
  · have hn : ¬ n < 0 := by omega
    have hcounts := hmono (a := m.natAbs) (b := n.natAbs) (by omega)
    simp only [hm, hn, decide_false, Bool.false_eq_true, if_false]
    omega

theorem lt_of_signed_ofInt_lt (h : (ofInt m).signed < (ofInt n).signed) : m < n :=
  Int.not_le.1 fun hle => Int.not_le.2 h (signed_ofInt_mono hle)

/-- Whether two integers are rounded to one binary number. -/
def Merged (m n : Int) : Prop := (ofInt m).signed = (ofInt n).signed

instance (m n : Int) : Decidable (Merged m n) :=
  inferInstanceAs (Decidable ((ofInt m).signed = (ofInt n).signed))

theorem Merged.eq (h : Merged m n) (hm : m.natAbs ≤ twoTo precision)
    (hn : n.natAbs ≤ twoTo precision) : m = n := by
  unfold Merged at h
  rw [signed_ofInt hm, signed_ofInt hn] at h
  exact Int.eq_of_mul_eq_mul_right (Int.ne_of_gt (Int.natCast_pos.2 unitsInOne_pos)) h

end Number.Finite

namespace Direction

/-- Whether two integers stand in this direction. -/
def Ordered : Direction → Int → Int → Prop
  | ascending => (· ≤ ·)
  | descending => (· ≥ ·)

theorem ordered_of_eq (d : Direction) {m n : Int} (h : m = n) : d.Ordered m n := by
  subst h
  cases d <;> exact Int.le_refl m

theorem ordered_iff (d : Direction) (m n : Int) :
    d.Ordered m n ↔ d.apply (Ord.compare m n) ≠ .gt := by
  have hle : ∀ a b : Int, a ≤ b ↔ Ord.compare a b ≠ .gt := by
    intro a b
    rw [ne_eq, Int.compare_eq_gt, Int.not_lt]
  cases d with
  | ascending => exact hle m n
  | descending =>
    show n ≤ m ↔ (Ord.compare m n).swap ≠ .gt
    rw [Int.compare_swap]
    exact hle n m

instance (d : Direction) (m n : Int) : Decidable (d.Ordered m n) :=
  match d with
  | ascending => inferInstanceAs (Decidable (m ≤ n))
  | descending => inferInstanceAs (Decidable (m ≥ n))

/-- Integers stand in a direction if their binary numbers do and are told apart. -/
theorem ordered_of_not_merged (d : Direction) {m n : Int}
    (h : d.Ordered (Finite.ofInt m).signed (Finite.ofInt n).signed)
    (hne : ¬ Finite.Merged m n) : d.Ordered m n := by
  cases d with
  | ascending => exact Int.le_of_lt (Finite.lt_of_signed_ofInt_lt (Int.lt_iff_le_and_ne.2 ⟨h, hne⟩))
  | descending =>
    exact Int.le_of_lt (Finite.lt_of_signed_ofInt_lt (Int.lt_iff_le_and_ne.2 ⟨h, Ne.symm hne⟩))

end Direction

/-! ## Rows with integers -/

theorem firstDifference_singleton (clause : OrderClause) (a b : Record) :
    firstDifference [clause] a b = clause.compare a b := by
  unfold firstDifference
  rw [List.map_singleton, List.find?_singleton]
  cases clause.compare a b <;> rfl

/-- Rows that tie stand as they were selected. -/
theorem Arranged.sublist_iff {clauses : List OrderClause} {selected rows : List Record}
    (h : Arranged clauses selected rows) {a b : Record} (ha : a ∈ selected)
    (hab : tied clauses a b = true) : [a, b].Sublist rows ↔ [a, b].Sublist selected := by
  have hself : tied clauses a a = true := by
    rw [tied_eq_compareRows, beq_iff_eq]
    exact Std.ReflCmp.compare_self
  have hpair : [a, b].filter (tied clauses a) = [a, b] := by simp [hself, hab]
  constructor
  · intro hrows
    have htied := hrows.filter (tied clauses a)
    rw [hpair, h.stable a ha] at htied
    exact htied.trans List.filter_sublist
  · intro hselected
    have htied := hselected.filter (tied clauses a)
    rw [hpair, ← h.stable a ha] at htied
    exact htied.trans List.filter_sublist

/-- Whether a row has an integer at a path. -/
def Record.HasInteger (path : Path) (row : Record) (n : Int) : Prop :=
  row.lookup? path.segments = some (.number (.integer n))

section Keys

variable {path : Path} {d : Direction} {selected rows : List Record} {key : Record → Int}

theorem compare_of_hasInteger {a b : Record} {m n : Int} (ha : a.HasInteger path m)
    (hb : b.HasInteger path n) : OrderClause.compare ⟨path, d⟩ a b =
      d.apply (Ord.compare (Finite.ofInt m).signed (Finite.ofInt n).signed) := by
  unfold OrderClause.compare Store.sortValue
  rw [ha, hb]
  rfl

theorem oneTyped_of_hasInteger (h : ∀ row ∈ selected, row.HasInteger path (key row)) :
    OneTyped selected path := by
  refine ⟨.number, fun row hrow v u hv hu => ?_⟩
  cases (h row hrow).symm.trans hv
  exact (Option.some.inj hu).symm

theorem tied_of_merged {a b : Record} (ha : a.HasInteger path (key a))
    (hb : b.HasInteger path (key b)) (hmerged : Finite.Merged (key a) (key b)) :
    tied [⟨path, d⟩] a b = true := by
  have htie : OrderClause.compare ⟨path, d⟩ a b = .eq := by
    rw [compare_of_hasInteger ha hb, Std.compare_eq_iff_eq.2 hmerged]
    cases d <;> rfl
  unfold tied
  rw [List.all_cons, htie]
  rfl

/-- Arranged rows stand in the order of their binary numbers. -/
theorem Arranged.ordered_binary (h : Arranged [⟨path, d⟩] selected rows)
    (hkey : ∀ row ∈ selected, row.HasInteger path (key row)) :
    rows.Pairwise fun a b =>
      d.Ordered (Finite.ofInt (key a)).signed (Finite.ofInt (key b)).signed := by
  refine h.sorted.imp_of_mem fun {a b} ha hb hab => ?_
  have hcompare := compare_of_hasInteger (d := d) (hkey a (h.perm.mem_iff.1 ha))
    (hkey b (h.perm.mem_iff.1 hb))
  rw [firstDifference_singleton] at hab
  rw [d.ordered_iff, ← hcompare]
  exact hab

/-- Arranged rows stand in the order of their integers exactly if those with merged integers are
selected in this order. -/
theorem Arranged.ordered_iff (h : Arranged [⟨path, d⟩] selected rows)
    (hkey : ∀ row ∈ selected, row.HasInteger path (key row)) :
    (rows.Pairwise fun a b => d.Ordered (key a) (key b)) ↔
      selected.Pairwise fun a b => Finite.Merged (key a) (key b) → d.Ordered (key a) (key b) := by
  have hbinary := h.ordered_binary hkey
  rw [List.pairwise_iff_forall_sublist] at hbinary ⊢
  rw [List.pairwise_iff_forall_sublist]
  constructor
  · intro hrows a b hab hmerged
    have ha : a ∈ selected := hab.subset List.mem_cons_self
    have hb : b ∈ selected := hab.subset (List.mem_cons_of_mem a List.mem_cons_self)
    exact hrows ((h.sublist_iff ha (tied_of_merged (hkey a ha) (hkey b hb) hmerged)).2 hab)
  · intro hselected a b hab
    have ha : a ∈ selected := h.perm.mem_iff.1 (hab.subset List.mem_cons_self)
    have hb : b ∈ selected :=
      h.perm.mem_iff.1 (hab.subset (List.mem_cons_of_mem a List.mem_cons_self))
    by_cases hmerged : Finite.Merged (key a) (key b)
    · exact hselected
        ((h.sublist_iff ha (tied_of_merged (hkey a ha) (hkey b hb) hmerged)).1 hab) hmerged
    · exact d.ordered_of_not_merged (hbinary hab) hmerged

end Keys

namespace Store

variable {store : Store} {q : Query} {path : Path} {d : Direction} {selected : List Record}
  {key : Record → Int}

theorem exists_arranged (hselect : store.select q = .ok selected)
    (horder : q.order = [⟨path, d⟩])
    (hkey : ∀ row ∈ selected, row.HasInteger path (key row)) :
    ∃ rows, store.fetch q = .ok rows ∧ Arranged [⟨path, d⟩] selected rows := by
  have htyped : ∀ clause ∈ q.order, OneTyped selected clause.path := by
    rw [horder]
    exact List.forall_mem_singleton.2 (oneTyped_of_hasInteger hkey)
  obtain ⟨rows, hrows, harranged⟩ := exists_sortRows htyped
  exact ⟨rows, (store.fetch_eq hselect).trans hrows, horder ▸ harranged⟩

/-- **Sorting by integers is exact up to rounding.** Let every selected row have an integer at a
path. Then fetching by this path gives the selected rows in the order of the binary numbers that
their integers are rounded to. The integers themselves are in order if and only if rows whose
integers are rounded to one number are selected in this order; and they are if all of them have up
to 53 binary digits. -/
theorem fetch_by_integer (hselect : store.select q = .ok selected)
    (horder : q.order = [⟨path, d⟩])
    (hkey : ∀ row ∈ selected, row.HasInteger path (key row)) :
    ∃ rows, store.fetch q = .ok rows ∧ rows.Perm selected ∧
      (rows.Pairwise fun a b =>
        d.Ordered (Finite.ofInt (key a)).signed (Finite.ofInt (key b)).signed) ∧
      ((rows.Pairwise fun a b => d.Ordered (key a) (key b)) ↔
        selected.Pairwise fun a b =>
          Finite.Merged (key a) (key b) → d.Ordered (key a) (key b)) ∧
      ((∀ row ∈ selected, (key row).natAbs ≤ twoTo precision) →
        rows.Pairwise fun a b => d.Ordered (key a) (key b)) := by
  obtain ⟨rows, hfetch, harranged⟩ := exists_arranged hselect horder hkey
  have hexact := harranged.ordered_iff hkey
  refine ⟨rows, hfetch, harranged.perm, harranged.ordered_binary hkey, hexact, fun hsmall => ?_⟩
  refine hexact.2 (List.pairwise_of_forall_mem_list fun a ha b hb hmerged => ?_)
  exact d.ordered_of_eq (hmerged.eq (hsmall a ha) (hsmall b hb))

/-- The number of an account. -/
def accountNumber : Record → Int
  | [(_, .number (.integer n))] => n
  | _ => 0

def accountsByNumber (d : Direction) : Query where
  entity := "accounts"
  order := [⟨⟨["number"]⟩, d⟩]

theorem select_accounts (numbers : List Int) (d : Direction) :
    (accounts numbers).select (accountsByNumber d) = .ok (numbered numbers) :=
  select_unfiltered _ rfl rfl

theorem hasInteger_numbered {numbers : List Int} :
    ∀ row ∈ numbered numbers, row.HasInteger ⟨["number"]⟩ (accountNumber row) := by
  intro row hrow
  obtain ⟨n, -, rfl⟩ := List.mem_map.1 hrow
  rfl

/-- Beyond 53 binary digits, where the merged ones are stored in order. -/
theorem fetch_by_integer_of_accounts :
    (accounts [9007199254740994, 9007199254740992, -1, 9007199254740993]).select
        (accountsByNumber .ascending) =
      .ok (numbered [9007199254740994, 9007199254740992, -1, 9007199254740993]) ∧
    Finite.Merged 9007199254740992 9007199254740993 ∧
    ∃ rows,
      (accounts [9007199254740994, 9007199254740992, -1, 9007199254740993]).fetch
        (accountsByNumber .ascending) = .ok rows ∧
      rows.Pairwise fun a b => accountNumber a ≤ accountNumber b := by
  obtain ⟨rows, hfetch, -, -, hexact, -⟩ :=
    fetch_by_integer (select_accounts _ .ascending) rfl hasInteger_numbered
  exact ⟨select_accounts _ _, by decide +kernel, rows, hfetch, hexact.2 (by decide +kernel)⟩

/-- Two merged integers that are stored in falling order stay so when their rows are sorted to
rise. -/
theorem not_fetch_by_integer_exact : ¬ ∀ (store : Store) (q : Query) (path : Path) (d : Direction)
    (selected rows : List Record) (key : Record → Int), store.select q = .ok selected →
    q.order = [⟨path, d⟩] →
    (∀ row ∈ selected, row.HasInteger path (key row) ∧ fitsWord 64 (key row) = true) →
    store.fetch q = .ok rows → rows.Pairwise fun a b => d.Ordered (key a) (key b) := by
  intro hclaim
  have hselect := select_accounts [9007199254740993, 9007199254740992] .ascending
  have hwords : ∀ row ∈ numbered [9007199254740993, 9007199254740992],
      fitsWord 64 (accountNumber row) = true := by
    unfold numbered
    rw [List.forall_mem_map]
    decide
  obtain ⟨rows, hfetch, harranged⟩ := exists_arranged hselect rfl hasInteger_numbered
  have hsorted := hclaim _ _ _ _ _ rows accountNumber hselect rfl
    (fun row hrow => ⟨hasInteger_numbered row hrow, hwords row hrow⟩) hfetch
  exact absurd ((harranged.ordered_iff hasInteger_numbered).1 hsorted) (by decide +kernel)

end Store

end DataGrid
