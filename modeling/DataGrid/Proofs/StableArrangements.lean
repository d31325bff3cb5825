import DataGrid.StableSort

/-!
# Stable arrangements

A list is arranged when its elements are in order and those that tie stand as they stood. Inserting
and merging keep lists arranged: an element that is put before others comes before all of them in
the order, so it ties with none that it passes. Merging from the end is merging from the front with
the order and both lists turned round.
-/

namespace DataGrid.StableSort

variable {α : Type} {cmp : α → α → Ordering} {as bs xs ys zs : List α} {a b c : α}

/-- The elements of a list that tie with one. -/
def ties (cmp : α → α → Ordering) (c : α) (xs : List α) : List α := xs.filter (cmp c · == .eq)

@[simp] theorem ties_nil (c : α) : ties cmp c [] = [] := rfl

theorem ties_append (c : α) (xs ys : List α) :
    ties cmp c (xs ++ ys) = ties cmp c xs ++ ties cmp c ys := List.filter_append ..

theorem ties_cons (c x : α) (xs : List α) :
    ties cmp c (x :: xs) = ties cmp c [x] ++ ties cmp c xs := ties_append c [x] xs

theorem ties_reverse (c : α) (xs : List α) :
    ties cmp c xs.reverse = (ties cmp c xs).reverse := List.filter_reverse ..

/-- `ys` are the elements of `xs` in order, and those that tie stand as they stand in `xs`. -/
structure Arranges (cmp : α → α → Ordering) (xs ys : List α) : Prop where
  perm : ys.Perm xs
  sorted : ys.Pairwise fun a b => (cmp a b).isLE
  stable : ∀ c, ties cmp c ys = ties cmp c xs

/-! ## Elements without regard to order -/

theorem insertBack_perm (x : α) (ys : List α) : (insertBack cmp x ys).Perm (x :: ys) := by
  induction ys with
  | nil => exact .refl _
  | cons y ys ih =>
    rw [insertBack]
    split
    · exact (ih.cons y).trans (.swap x y ys)
    · exact .refl _

theorem insertAll_cons (start : List α) (x : α) (xs : List α) :
    insertAll cmp start (x :: xs) = insertAll cmp (insertBack cmp x start.reverse).reverse xs := by
  simp only [insertAll, List.foldl_cons, List.reverse_reverse]

theorem insertAll_perm (start xs : List α) : (insertAll cmp start xs).Perm (start ++ xs) := by
  induction xs generalizing start with
  | nil => simp [insertAll]
  | cons x xs ih =>
    have hstep : (insertBack cmp x start.reverse).reverse.Perm (start ++ [x]) := by
      refine (List.reverse_perm _).trans ((insertBack_perm x _).trans ?_)
      exact ((List.reverse_perm start).cons x).trans (List.perm_append_singleton x start).symm
    rw [insertAll_cons]
    refine (ih _).trans ((hstep.append_right xs).trans ?_)
    rw [List.append_assoc, List.singleton_append]

theorem mergeUp_perm (as bs : List α) : (mergeUp cmp as bs).Perm (as ++ bs) :=
  List.merge_perm_append _

theorem merge_perm (as bs : List α) : (merge cmp as bs).Perm (as ++ bs) := by
  unfold merge
  split
  · exact mergeUp_perm as bs
  · refine (List.reverse_perm _).trans ((mergeUp_perm _ _).trans ?_)
    exact ((List.reverse_perm bs).append (List.reverse_perm as)).trans List.perm_append_comm

/-! ## Order -/

namespace Arranges

theorem mem_iff (h : Arranges cmp xs ys) : a ∈ ys ↔ a ∈ xs := h.perm.mem_iff

/-- A list that is in order is arranged as it stands. -/
theorem of_sorted (h : xs.Pairwise fun a b => (cmp a b).isLE) : Arranges cmp xs xs :=
  ⟨.refl xs, h, fun _ => rfl⟩

/-- Two lists are arranged together when they are arranged first each on its own. -/
theorem of_parts (ha : Arranges cmp xs as) (hb : Arranges cmp ys bs)
    (h : Arranges cmp (as ++ bs) zs) : Arranges cmp (xs ++ ys) zs where
  perm := h.perm.trans (ha.perm.append hb.perm)
  sorted := h.sorted
  stable c := by rw [h.stable, ties_append, ha.stable, hb.stable, ties_append]

/-- To arrange a list is to arrange it from its end in the opposite order. -/
theorem reverse [Std.OrientedCmp cmp] (h : Arranges (fun a b => cmp b a) xs.reverse ys) :
    Arranges cmp xs ys.reverse where
  perm := (List.reverse_perm ys).trans (h.perm.trans (List.reverse_perm xs))
  sorted := List.pairwise_reverse.2 h.sorted
  stable c := by
    have hties : ∀ zs, ties (fun a b => cmp b a) c zs = ties cmp c zs := by
      intro zs
      refine List.filter_congr fun z _ => ?_
      have hswap : cmp z c = (cmp c z).swap := Std.OrientedCmp.eq_swap
      simp only [hswap]
      cases cmp c z <;> rfl
    have hstable := h.stable c
    rw [hties, hties, ties_reverse] at hstable
    rw [ties_reverse, hstable, List.reverse_reverse]

end Arranges

theorem isLE_of_lt (h : cmp a b = .lt) : (cmp a b).isLE := by
  rw [h]
  rfl

section Preorder

variable [Std.TransCmp cmp]

theorem isLE_of_not_lt (h : cmp b a ≠ .lt) : (cmp a b).isLE := by
  rw [← Ordering.ne_gt_iff_isLE, Std.OrientedCmp.gt_iff_lt]
  exact h

theorem not_lt_of_isLE (h : (cmp a b).isLE) : cmp b a ≠ .lt := by
  rw [ne_eq, ← Std.OrientedCmp.gt_iff_lt]
  exact Ordering.ne_gt_iff_isLE.2 h

/-- Elements that are told apart do not both tie with one, so they may stand either way round. -/
theorem ties_comm (h : ∀ x ∈ xs, ∀ y ∈ ys, cmp x y = .lt) (c : α) :
    ties cmp c ys ++ ties cmp c xs = ties cmp c xs ++ ties cmp c ys := by
  cases hx : ties cmp c xs with
  | nil => rw [List.append_nil, List.nil_append]
  | cons x rest =>
    have hmem : x ∈ ties cmp c xs := hx ▸ List.mem_cons_self
    obtain ⟨hxs, hcx⟩ := List.mem_filter.1 hmem
    have hnone : ties cmp c ys = [] := by
      refine List.filter_eq_nil_iff.2 fun y hy hcy => ?_
      have hxc : cmp x c = .eq := Std.OrientedCmp.eq_symm (by simpa using hcx)
      have hxy := Std.TransCmp.eq_trans hxc (by simpa using hcy)
      rw [h x hxs y hy] at hxy
      cases hxy
    rw [hnone, List.append_nil, List.nil_append]

/-! ### Insertion -/

theorem insertBack_sorted (x : α) (h : ys.Pairwise fun a b => (cmp b a).isLE) :
    (insertBack cmp x ys).Pairwise fun a b => (cmp b a).isLE := by
  induction ys with
  | nil => exact List.pairwise_singleton _ x
  | cons y ys ih =>
    obtain ⟨hy, hys⟩ := List.pairwise_cons.1 h
    rw [insertBack]
    split
    · rename_i hlt
      refine List.pairwise_cons.2 ⟨fun z hz => ?_, ih hys⟩
      obtain rfl | hz := List.mem_cons.1 ((insertBack_perm x ys).mem_iff.1 hz)
      · exact isLE_of_lt hlt
      · exact hy z hz
    · rename_i hnot
      have hyx : (cmp y x).isLE := isLE_of_not_lt hnot
      refine List.pairwise_cons.2 ⟨fun z hz => ?_, h⟩
      obtain rfl | hz := List.mem_cons.1 hz
      · exact hyx
      · exact Std.TransCmp.isLE_trans (hy z hz) hyx

theorem ties_insertBack (c x : α) (ys : List α) :
    ties cmp c (insertBack cmp x ys) = ties cmp c [x] ++ ties cmp c ys := by
  induction ys with
  | nil => exact (List.append_nil _).symm
  | cons y ys ih =>
    rw [insertBack]
    split
    · rename_i hlt
      have hcomm : ties cmp c [y] ++ ties cmp c [x] = ties cmp c [x] ++ ties cmp c [y] :=
        ties_comm (by simpa using hlt) c
      rw [ties_cons, ih, ← List.append_assoc, hcomm, List.append_assoc, ← ties_cons]
    · exact ties_cons c x (y :: ys)

/-- Inserting keeps a list arranged. -/
theorem Arranges.insertAll {start : List α} (h : Arranges cmp ys start) (xs : List α) :
    Arranges cmp (ys ++ xs) (insertAll cmp start xs) := by
  induction xs generalizing ys start with
  | nil => simpa [StableSort.insertAll] using h
  | cons x xs ih =>
    have hstep : Arranges cmp (ys ++ [x]) (insertBack cmp x start.reverse).reverse := by
      refine ⟨?_, ?_, fun c => ?_⟩
      · refine (List.reverse_perm _).trans ((insertBack_perm x _).trans ?_)
        have hstart := (List.reverse_perm start).trans h.perm
        exact (hstart.cons x).trans (List.perm_append_singleton x ys).symm
      · exact List.pairwise_reverse.2 (insertBack_sorted x (List.pairwise_reverse.2 h.sorted))
      · have hone : (ties cmp c [x]).reverse = ties cmp c [x] := (ties_reverse c [x]).symm
        rw [ties_reverse, ties_insertBack, ties_reverse, List.reverse_append, List.reverse_reverse,
          hone, h.stable, ties_append]
    rw [insertAll_cons]
    simpa using ih hstep

theorem arranges_insertAll (xs : List α) : Arranges cmp xs (insertAll cmp [] xs) :=
  Arranges.insertAll (.of_sorted .nil) xs

/-! ### Merging -/

theorem mergeUp_sorted (ha : as.Pairwise fun a b => (cmp a b).isLE)
    (hb : bs.Pairwise fun a b => (cmp a b).isLE) :
    (mergeUp cmp as bs).Pairwise fun a b => (cmp a b).isLE := by
  have hle : ∀ a b, (cmp b a != .lt) = (cmp a b).isLE := by
    intro a b
    have hswap : cmp b a = (cmp a b).swap := Std.OrientedCmp.eq_swap
    rw [hswap]
    cases cmp a b <;> rfl
  unfold mergeUp
  simp only [hle]
  refine List.pairwise_merge (fun _ _ _ => Std.TransCmp.isLE_trans) (fun a b => ?_) as bs ha hb
  have hswap : cmp b a = (cmp a b).swap := Std.OrientedCmp.eq_swap
  rw [hswap]
  cases cmp a b <;> rfl

theorem ties_mergeUp (ha : as.Pairwise fun a b => (cmp a b).isLE) (c : α) :
    ties cmp c (mergeUp cmp as bs) = ties cmp c as ++ ties cmp c bs := by
  unfold mergeUp
  induction as generalizing bs with
  | nil => rw [List.nil_merge, ties_nil, List.nil_append]
  | cons a as ih =>
    obtain ⟨hmin, has⟩ := List.pairwise_cons.1 ha
    induction bs with
    | nil => rw [List.merge_right, ties_nil, List.append_nil]
    | cons b bs ihb =>
      rw [List.cons_merge_cons]
      split
      · rw [ties_cons, ih has, ← List.append_assoc, ← ties_cons]
      · rename_i hlt
        have hba : cmp b a = .lt := by simpa using hlt
        -- What is passed by `b` comes behind it, so `b` stands as well behind it among its ties.
        have hpassed : ∀ x ∈ [b], ∀ y ∈ a :: as, cmp x y = .lt := by
          intro x hx y hy
          obtain rfl := List.mem_singleton.1 hx
          obtain rfl | hy := List.mem_cons.1 hy
          · exact hba
          · exact Std.TransCmp.lt_of_lt_of_isLE hba (hmin y hy)
        rw [ties_cons, ihb, ← List.append_assoc, ← ties_comm hpassed, List.append_assoc,
          ← ties_cons]

/-- Merging arranges two arranged lists as one. -/
theorem Arranges.mergeUp (ha : Arranges cmp xs as) (hb : Arranges cmp ys bs) :
    Arranges cmp (xs ++ ys) (mergeUp cmp as bs) where
  perm := (mergeUp_perm as bs).trans (ha.perm.append hb.perm)
  sorted := mergeUp_sorted ha.sorted hb.sorted
  stable c := by rw [ties_mergeUp ha.sorted, ha.stable, hb.stable, ties_append]

theorem Arranges.merge (ha : Arranges cmp xs as) (hb : Arranges cmp ys bs) :
    Arranges cmp (xs ++ ys) (merge cmp as bs) := by
  unfold StableSort.merge
  split
  · exact ha.mergeUp hb
  · have : Std.TransCmp fun a b => cmp b a := Std.TransCmp.opposite
    have hturn : ∀ {xs zs}, Arranges cmp xs zs →
        Arranges (fun a b => cmp b a) xs.reverse zs.reverse := by
      intro xs zs h
      apply Arranges.reverse
      rwa [List.reverse_reverse]
    have hmerged := (hturn hb).mergeUp (hturn ha)
    rw [← List.reverse_append] at hmerged
    exact hmerged.reverse

/-! ### Parting -/

/-- A list is arranged by parts of which one comes before the other. -/
theorem Arranges.parted {p q : α → Bool} (hq : ∀ x, q x = !p x)
    (hlt : ∀ x ∈ xs, ∀ y ∈ xs, p x → q y → cmp x y = .lt)
    (ha : Arranges cmp (xs.filter p) as) (hb : Arranges cmp (xs.filter q) bs) :
    Arranges cmp xs (as ++ bs) where
  perm := by
    obtain rfl : q = fun x => !p x := funext hq
    exact (ha.perm.append hb.perm).trans (List.filter_append_perm p xs)
  sorted := by
    refine List.pairwise_append.2 ⟨ha.sorted, hb.sorted, fun x hx y hy => ?_⟩
    obtain ⟨hxs, hpx⟩ := List.mem_filter.1 (ha.mem_iff.1 hx)
    obtain ⟨hys, hqy⟩ := List.mem_filter.1 (hb.mem_iff.1 hy)
    exact isLE_of_lt (hlt x hxs y hys hpx hqy)
  stable c := by
    rw [ties_append, ha.stable, hb.stable]
    clear ha hb
    induction xs with
    | nil => rfl
    | cons x xs ih =>
      have hrest := ih fun y hy z hz =>
        hlt y (List.mem_cons_of_mem x hy) z (List.mem_cons_of_mem x hz)
      rw [ties_cons c x xs, ← hrest]
      cases hp : p x with
      | true =>
        rw [List.filter_cons_of_pos hp, List.filter_cons_of_neg (by simp [hq, hp]), ties_cons,
          List.append_assoc]
      | false =>
        have hx : q x := by rw [hq, hp]; rfl
        -- The first part comes before `x`, so none of it ties with what ties with `x`.
        have hbefore : ∀ y ∈ xs.filter p, ∀ z ∈ [x], cmp y z = .lt := by
          intro y hy z hz
          obtain rfl := List.mem_singleton.1 hz
          obtain ⟨hys, hpy⟩ := List.mem_filter.1 hy
          exact hlt y (List.mem_cons_of_mem z hys) z List.mem_cons_self hpy hx
        rw [List.filter_cons_of_neg (by simp [hp]), List.filter_cons_of_pos hx, ties_cons c x,
          ← List.append_assoc, ← ties_comm hbefore, List.append_assoc]

end Preorder

/-! ## Sorts with and without a result -/

/-- What a list has become: its elements in some order, and under a total preorder in the stable
arrangement. -/
structure Settled (cmp : α → α → Ordering) (xs ys : List α) : Prop where
  perm : ys.Perm xs
  arranges : Std.TransCmp cmp → Arranges cmp xs ys

theorem Arranges.settled (h : Arranges cmp xs ys) : Settled cmp xs ys := ⟨h.perm, fun _ => h⟩

theorem Settled.insertAll {start : List α} (h : Settled cmp ys start) (xs : List α) :
    Settled cmp (ys ++ xs) (insertAll cmp start xs) where
  perm := (insertAll_perm start xs).trans (h.perm.append_right xs)
  arranges _ := (h.arranges ‹_›).insertAll xs

theorem Settled.merge (ha : Settled cmp xs as) (hb : Settled cmp ys bs) :
    Settled cmp (xs ++ ys) (merge cmp as bs) where
  perm := (merge_perm as bs).trans (ha.perm.append hb.perm)
  arranges _ := (ha.arranges ‹_›).merge (hb.arranges ‹_›)

theorem settled_insertAll (xs : List α) : Settled cmp xs (insertAll cmp [] xs) :=
  ⟨insertAll_perm [] xs, fun _ => arranges_insertAll xs⟩

/-- What is known of a result that may be missing: it is as `P` says, and under `total` it is not
missing. -/
def Yields {β : Type} (total : Prop) (P : β → Prop) : Option β → Prop
  | none => ¬ total
  | some b => P b

namespace Yields

variable {β γ : Type} {total : Prop} {P : β → Prop} {Q : γ → Prop} {o : Option β}

theorem bind {f : β → Option γ} (h : Yields total P o)
    (hf : ∀ b, P b → Yields total Q (f b)) : Yields total Q (o.bind f) := by
  cases o with
  | none => exact h
  | some b => exact hf b h

theorem map {f : β → γ} (h : Yields total P o) (hf : ∀ b, P b → Q (f b)) :
    Yields total Q (o.map f) := by
  cases o with
  | none => exact h
  | some b => exact hf b h

theorem exists_eq_some (h : Yields total P o) (ht : total) : ∃ b, o = some b ∧ P b := by
  cases o with
  | none => exact absurd ht h
  | some b => exact ⟨b, rfl, h⟩

theorem of_some {b : β} (h : Yields total P o) (ho : o = some b) : P b := by
  subst ho
  exact h

end Yields

end DataGrid.StableSort
