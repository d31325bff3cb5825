import DataGrid.Proofs.SortedRuns

/-!
# The stable sort

A list is parted at a pivot into what comes before it and what does not, whichever element the pivot
is. When no element comes before it, those that tie with it are the least ones and are in order as
they stand; a pivot that ties with the floor of the list is such a one. So under a total preorder
each part is sorted, and the whole with it. Under any comparison a result holds the elements of the
list.
-/

namespace DataGrid.StableSort

variable {α : Type} {cmp : α → α → Ordering} {xs ys zs : List α} {a b : α}

/-! ## Pivots -/

section Preorder

variable [Std.TransCmp cmp]

/-- Elements that do not come before a least one and do not come behind it are arranged. -/
theorem arranges_least {pivot : α} (h : ∀ x ∈ xs, (cmp pivot x).isLE) :
    Arranges cmp (xs.filter (cmp pivot · != .lt)) (xs.filter (cmp pivot · != .lt)) := by
  refine .of_sorted (List.pairwise_of_forall_mem_list fun x hx y hy => ?_)
  have hle : (cmp x pivot).isLE := isLE_of_not_lt (by simpa using (List.mem_filter.1 hx).2)
  exact Std.TransCmp.isLE_trans hle (h y (List.mem_filter.1 hy).1)

theorem Arranges.parted_least {pivot : α} (h : ∀ x ∈ xs, (cmp pivot x).isLE)
    (hb : Arranges cmp (xs.filter (cmp pivot · == .lt)) ys) :
    Arranges cmp xs (xs.filter (cmp pivot · != .lt) ++ ys) := by
  refine (arranges_least h).parted (fun x => (Bool.not_not _).symm) (fun x _ y _ hx hy => ?_) hb
  have hle : (cmp x pivot).isLE := isLE_of_not_lt (by simpa using hx)
  exact Std.TransCmp.lt_of_isLE_of_lt hle (by simpa using hy)

theorem Arranges.parted_below {pivot : α} (ha : Arranges cmp (xs.filter (cmp · pivot == .lt)) ys)
    (hb : Arranges cmp (xs.filter (cmp · pivot != .lt)) zs) : Arranges cmp xs (ys ++ zs) := by
  refine ha.parted (fun x => rfl) (fun x _ y _ hx hy => ?_) hb
  have hle : (cmp pivot y).isLE := isLE_of_not_lt (by simpa using hy)
  exact Std.TransCmp.lt_of_lt_of_isLE (by simpa using hx) hle

/-- A pivot is a least element if it ties with the floor, or if nothing comes before it. -/
theorem pivot_least {pivot : α} {floor : Option α}
    (hfloor : ∀ f ∈ floor, ∀ x ∈ xs, (cmp f x).isLE)
    (h : (floor.any (cmp · pivot != .lt) || (xs.filter (cmp · pivot == .lt)).isEmpty) = true) :
    ∀ x ∈ xs, (cmp pivot x).isLE := by
  intro x hx
  obtain h | h := Bool.or_eq_true_iff.1 h
  · obtain ⟨f, hf, hnot⟩ := (Option.any_eq_true _ _).1 h
    have hle : (cmp pivot f).isLE := isLE_of_not_lt (by simpa using hnot)
    exact Std.TransCmp.isLE_trans hle (hfloor f hf x hx)
  · have hnone := List.filter_eq_nil_iff.1 (List.isEmpty_iff.1 h) x hx
    exact isLE_of_not_lt (by simpa using hnone)

end Preorder

/-! ## Sorting by pivots -/

theorem sortByPivots_yields {fallback : List α → Option (List α)}
    (hfallback : ∀ xs, Yields (Std.TransCmp cmp) (Settled cmp xs) (fallback xs)) {limit : Nat}
    {floor : Option α}
    (hfloor : Std.TransCmp cmp → ∀ f ∈ floor, ∀ x ∈ xs, (cmp f x).isLE) :
    Yields (Std.TransCmp cmp) (Settled cmp xs) (sortByPivots cmp fallback limit floor xs) := by
  induction limit generalizing floor xs with
  | zero =>
    unfold sortByPivots
    split
    · exact sortShort_yields xs
    · exact hfallback xs
  | succ limit ih =>
    unfold sortByPivots
    split
    · exact sortShort_yields xs
    · rename_i hlength
      have hnil : xs ≠ [] := by
        rintro rfl
        exact hlength (Nat.zero_le _)
      obtain ⟨pivot, hpivot⟩ : ∃ pivot, pivot? cmp xs = some pivot := by
        obtain ⟨first, rest, rfl⟩ := List.exists_cons_of_ne_nil hnil
        exact ⟨_, rfl⟩
      rw [hpivot]
      simp only [Option.bind_eq_bind, Option.bind_some]
      split
      · rename_i hleast
        refine (ih fun _ f hf => by cases hf).bind fun above habove => ?_
        refine ⟨?_, fun _ => .parted_least (pivot_least (hfloor ‹_›) hleast)
          (habove.arranges ‹_›)⟩
        exact (habove.perm.append_left _).trans
          (List.perm_append_comm.trans (List.filter_append_perm (cmp pivot · == .lt) xs))
      · refine (ih fun _ f hf x hx => ?_).bind fun above habove => ?_
        · obtain rfl := Option.some.inj hf
          exact isLE_of_not_lt (by simpa using (List.mem_filter.1 hx).2)
        · refine (ih fun _ f hf x hx => ?_).bind fun below hbelow => ?_
          · exact hfloor ‹_› f hf x (List.mem_filter.1 hx).1
          · refine ⟨?_, fun _ => .parted_below (hbelow.arranges ‹_›) (habove.arranges ‹_›)⟩
            exact (hbelow.perm.append habove.perm).trans (List.filter_append_perm _ xs)

/-! ## All lists -/

theorem sortEagerly_yields (xs : List α) :
    Yields (Std.TransCmp cmp) (Settled cmp xs) (sortEagerly cmp xs) :=
  sortRuns_yields (fun h => by cases h) xs

theorem sortStretch_yields (xs : List α) :
    Yields (Std.TransCmp cmp) (Settled cmp xs) (sortStretch cmp xs) :=
  sortByPivots_yields sortEagerly_yields fun _ _ hf => by cases hf

theorem stableSort_yields (xs : List α) :
    Yields (Std.TransCmp cmp) (Settled cmp xs) (stableSort cmp xs) := by
  unfold stableSort
  split
  · exact settled_insertAll xs
  · exact sortRuns_yields (fun _ => sortStretch_yields) xs

/-- What a list is sorted into, whatever the comparison, are its own elements. -/
theorem stableSort_perm (h : stableSort cmp xs = some ys) : ys.Perm xs :=
  ((stableSort_yields xs).of_some h).perm

variable (cmp) in
/-- Under a total preorder every list is sorted, into its stable arrangement. -/
theorem exists_stableSort [Std.TransCmp cmp] (xs : List α) :
    ∃ ys, stableSort cmp xs = some ys ∧ Arranges cmp xs ys := by
  obtain ⟨ys, hys, hsettled⟩ := (stableSort_yields xs).exists_eq_some ‹_›
  exact ⟨ys, hys, hsettled.arranges ‹_›⟩

/-- A list in which all elements tie is sorted as it stands. -/
theorem stableSort_of_ties (h : ∀ a b, cmp a b = .eq) (xs : List α) :
    stableSort cmp xs = some xs := by
  have hties : ∀ (c : α) (zs : List α), ties cmp c zs = zs := fun c zs =>
    List.filter_eq_self.2 fun z _ => by rw [h]; rfl
  have : Std.TransCmp cmp :=
    { eq_swap := fun {a b} => by rw [h, h]; rfl
      isLE_trans := fun _ _ => by rw [h]; rfl }
  obtain ⟨ys, hys, harranges⟩ := exists_stableSort cmp xs
  cases hxs : xs with
  | nil => rfl
  | cons x rest =>
    have hstable := harranges.stable x
    rw [hties, hties] at hstable
    rw [← hxs, hys, hstable]

variable (cmp) in
/-- A list of up to twenty elements is sorted, whatever the comparison. -/
theorem exists_stableSort_of_length_le (h : xs.length ≤ 20) :
    ∃ ys, stableSort cmp xs = some ys := ⟨_, if_pos h⟩

end DataGrid.StableSort
