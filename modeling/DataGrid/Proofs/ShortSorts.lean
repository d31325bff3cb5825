import DataGrid.Proofs.StableArrangements

/-!
# Short lists are sorted

A short list is sorted by a network of comparisons, by insertion, and by merging its halves from
both ends at once. The two ends take each element once because each of them cuts the halves where
the merged list would be cut, and of two such cuts the one that takes fewer elements lies in front
of the other in both halves.
-/

namespace DataGrid.StableSort

open scoped List

variable {α : Type} {cmp : α → α → Ordering} {as bs xs ys zs : List α} {a b c d : α}

/-! ## Two and four elements -/

theorem sortTwo_perm (a b : α) : [(sortTwo cmp a b).1, (sortTwo cmp a b).2].Perm [a, b] := by
  unfold sortTwo
  split
  · exact .swap a b []
  · exact .refl _

theorem sortMiddle_perm (least left right greatest : α) :
    (sortMiddle cmp least left right greatest).Perm [least, left, right, greatest] :=
  ((sortTwo_perm left right).append_right [greatest]).cons least

theorem mergePairs_perm (a b c d : α) : (mergePairs cmp a b c d).Perm ([a, b] ++ [c, d]) := by
  have hmove : [c, a, b, d] ~ [a, b, c, d] :=
    (List.perm_append_singleton c [a, b]).symm.append_right [d]
  unfold mergePairs
  split <;> split <;> refine (sortMiddle_perm _ _ _ _).trans ?_
  · exact (((List.Perm.swap b d []).cons a).cons c).trans hmove
  · exact hmove
  · exact (List.perm_append_singleton b [c, d]).cons a
  · exact .refl _

theorem sortFour_perm (xs : List α) : (sortFour cmp xs).Perm xs := by
  unfold sortFour
  split
  · rename_i a b c d
    exact (mergePairs_perm _ _ _ _).trans ((sortTwo_perm a b).append (sortTwo_perm c d))
  · exact insertAll_perm [] _

section Preorder

variable [Std.TransCmp cmp]

theorem sortTwo_isLE (a b : α) : (cmp (sortTwo cmp a b).1 (sortTwo cmp a b).2).isLE := by
  unfold sortTwo
  split
  · rename_i hlt
    exact isLE_of_lt hlt
  · rename_i hnot
    exact isLE_of_not_lt hnot

variable (cmp) in
theorem arranges_sortTwo (a b : α) :
    Arranges cmp [a, b] [(sortTwo cmp a b).1, (sortTwo cmp a b).2] where
  perm := sortTwo_perm a b
  sorted := List.pairwise_pair.2 (sortTwo_isLE a b)
  stable c := by
    unfold sortTwo
    split
    · rename_i hlt
      have hcomm : ties cmp c [a] ++ ties cmp c [b] = ties cmp c [b] ++ ties cmp c [a] :=
        ties_comm (by simpa using hlt) c
      rw [ties_cons, ← hcomm, ← ties_cons]
    · rfl

/-- The network gives what merging the two pairs gives. -/
theorem mergePairs_eq_mergeUp (hab : (cmp a b).isLE) (hcd : (cmp c d).isLE) :
    mergePairs cmp a b c d = mergeUp cmp [a, b] [c, d] := by
  unfold mergePairs mergeUp sortMiddle sortTwo
  simp only [List.cons_merge_cons, List.nil_merge, List.merge_right, bne_iff_ne, ne_eq, ite_not]
  by_cases hca : cmp c a = .lt <;> by_cases hdb : cmp d b = .lt
  · by_cases hda : cmp d a = .lt <;> simp [hca, hdb, hda]
  · have hba : ¬ cmp b a = .lt := not_lt_of_isLE hab
    have hda : ¬ cmp d a = .lt := not_lt_of_isLE (Std.TransCmp.isLE_trans hab (isLE_of_not_lt hdb))
    simp [hca, hdb, hba, hda]
  · have hcb : cmp c b = .lt := Std.TransCmp.lt_of_isLE_of_lt hcd hdb
    have hdc : ¬ cmp d c = .lt := not_lt_of_isLE hcd
    simp [hca, hdb, hcb, hdc]
  · by_cases hcb : cmp c b = .lt <;> simp [hca, hdb, hcb]

theorem arranges_sortFour (xs : List α) : Arranges cmp xs (sortFour cmp xs) := by
  unfold sortFour
  split
  · rename_i a b c d
    have hpairs := (arranges_sortTwo cmp a b).mergeUp (arranges_sortTwo cmp c d)
    rwa [← mergePairs_eq_mergeUp (sortTwo_isLE a b) (sortTwo_isLE c d)] at hpairs
  · exact arranges_insertAll _

end Preorder

/-! ## Cuts -/

/-- Two lists are cut where their merged list is cut. -/
structure Cut (cmp : α → α → Ordering) (as₁ as₂ bs₁ bs₂ : List α) : Prop where
  left : ∀ a ∈ as₁, ∀ b ∈ bs₂, (cmp a b).isLE
  right : ∀ b ∈ bs₁, ∀ a ∈ as₂, cmp b a = .lt

/-- `as₁` and `bs₁` have been merged from the heads of two lists. -/
structure Front (cmp : α → α → Ordering) (n : Nat) (as bs front as₁ as₂ bs₁ bs₂ : List α) :
    Prop where
  left : as = as₁ ++ as₂
  right : bs = bs₁ ++ bs₂
  merged : front = mergeUp cmp as₁ bs₁
  length_le : as₁.length + bs₁.length ≤ n
  stops : n ≤ as₁.length + bs₁.length ∨ as₂ = [] ∨ bs₂ = []

variable (cmp) in
/-- Merging from the heads takes a head from either list, and cuts lists that are in order. -/
theorem exists_front (n : Nat) (as bs : List α) :
    ∃ as₁ bs₁, Front cmp n as bs (mergeFront cmp n as bs).1 as₁ (mergeFront cmp n as bs).2.1
        bs₁ (mergeFront cmp n as bs).2.2 ∧
      ∀ [Std.TransCmp cmp], (as.Pairwise fun a b => (cmp a b).isLE) →
        (bs.Pairwise fun a b => (cmp a b).isLE) →
        Cut cmp as₁ (mergeFront cmp n as bs).2.1 bs₁ (mergeFront cmp n as bs).2.2 := by
  induction n generalizing as bs with
  | zero =>
    refine ⟨[], [], ⟨rfl, rfl, ?_, Nat.le_refl 0, .inl (Nat.le_refl 0)⟩, ?_⟩
    · exact (List.nil_merge _).symm
    · intro _ _ _
      exact ⟨by simp, by simp⟩
  | succ n ih =>
    match as, bs with
    | [], bs =>
      refine ⟨[], [], ⟨rfl, rfl, (List.nil_merge _).symm, Nat.zero_le _, .inr (.inl rfl)⟩, ?_⟩
      intro _ _ _
      exact ⟨by simp, by simp⟩
    | a :: as, [] =>
      refine ⟨[], [], ⟨rfl, rfl, (List.nil_merge _).symm, Nat.zero_le _, .inr (.inr rfl)⟩, ?_⟩
      intro _ _ _
      exact ⟨by simp, by simp⟩
    | a :: as, b :: bs =>
      rw [mergeFront]
      by_cases hlt : cmp b a = .lt
      · rw [if_pos hlt]
        obtain ⟨as₁, bs₁, hfront, hcut⟩ := ih (a :: as) bs
        refine ⟨as₁, b :: bs₁, ⟨hfront.left, congrArg (b :: ·) hfront.right, ?_, ?_, ?_⟩, ?_⟩
        · have hmerged := congrArg (b :: ·) hfront.merged
          refine hmerged.trans ?_
          unfold mergeUp
          match as₁, hfront.left with
          | [], _ => rw [List.nil_merge, List.nil_merge]
          | x :: as₁, hleft =>
            cases (List.cons.inj hleft).1
            rw [List.cons_merge_cons, hlt]
            rfl
        · have := hfront.length_le
          rw [List.length_cons]
          omega
        · rw [List.length_cons]
          exact hfront.stops.imp_left fun h => by omega
        · intro _ has hbs
          have hrest := hcut has (List.pairwise_cons.1 hbs).2
          refine ⟨hrest.left, fun x hx y hy => ?_⟩
          obtain rfl | hx := List.mem_cons.1 hx
          · have hmem : y ∈ a :: as := hfront.left ▸ List.mem_append_right _ hy
            obtain rfl | hmem := List.mem_cons.1 hmem
            · exact hlt
            · exact Std.TransCmp.lt_of_lt_of_isLE hlt ((List.pairwise_cons.1 has).1 y hmem)
          · exact hrest.right x hx y hy
      · rw [if_neg hlt]
        obtain ⟨as₁, bs₁, hfront, hcut⟩ := ih as (b :: bs)
        refine ⟨a :: as₁, bs₁, ⟨congrArg (a :: ·) hfront.left, hfront.right, ?_, ?_, ?_⟩, ?_⟩
        · have hmerged := congrArg (a :: ·) hfront.merged
          refine hmerged.trans ?_
          unfold mergeUp
          match bs₁, hfront.right with
          | [], _ => rw [List.merge_right, List.merge_right]
          | y :: bs₁, hright =>
            cases (List.cons.inj hright).1
            rw [List.cons_merge_cons, if_pos (by simpa using hlt)]
        · have := hfront.length_le
          rw [List.length_cons]
          omega
        · rw [List.length_cons]
          exact hfront.stops.imp_left fun h => by omega
        · intro _ has hbs
          have hrest := hcut (List.pairwise_cons.1 has).2 hbs
          refine ⟨fun x hx y hy => ?_, hrest.right⟩
          obtain rfl | hx := List.mem_cons.1 hx
          · have hle := isLE_of_not_lt hlt
            have hmem : y ∈ b :: bs := hfront.right ▸ List.mem_append_right _ hy
            obtain rfl | hmem := List.mem_cons.1 hmem
            · exact hle
            · exact Std.TransCmp.isLE_trans hle ((List.pairwise_cons.1 hbs).1 y hmem)
          · exact hrest.left x hx y hy

/-- Of two cuts the one with fewer elements in front lies in front of the other in both lists. -/
theorem Cut.exists_between [Std.TransCmp cmp] {as₁ as₂ as₃ as₄ bs₁ bs₂ bs₃ bs₄ : List α}
    (has : as₁ ++ as₂ = as₃ ++ as₄) (hbs : bs₁ ++ bs₂ = bs₃ ++ bs₄) (h : Cut cmp as₁ as₂ bs₁ bs₂)
    (h' : Cut cmp as₃ as₄ bs₃ bs₄)
    (hle : as₁.length + bs₁.length ≤ as₃.length + bs₃.length) :
    as₁.length ≤ as₃.length ∧ bs₁.length ≤ bs₃.length := by
  rcases List.append_eq_append_iff.1 has with ⟨p, rfl, rfl⟩ | ⟨p, rfl, rfl⟩ <;>
    rcases List.append_eq_append_iff.1 hbs with ⟨q, rfl, rfl⟩ | ⟨q, rfl, rfl⟩ <;>
    simp only [List.length_append] at hle ⊢
  · omega
  · -- An element between the cuts of one list is before one and behind one of the other.
    match p, q with
    | [], q =>
      rw [List.length_nil] at hle ⊢
      omega
    | p, [] => simp
    | x :: p, y :: q =>
      have hlt := h.right y (by simp) x (by simp)
      exact absurd hlt (not_lt_of_isLE (h'.left x (by simp) y (by simp)))
  · match p, q with
    | [], q => simp
    | p, [] =>
      rw [List.length_nil] at hle ⊢
      omega
    | x :: p, y :: q =>
      have hlt := h'.right y (by simp) x (by simp)
      exact absurd hlt (not_lt_of_isLE (h.left x (by simp) y (by simp)))
  · omega

/-- Arranged parts in front of and behind a cut are arranged together. -/
theorem Cut.arranges [Std.TransCmp cmp] {as₁ as₂ bs₁ bs₂ front back : List α}
    (h : Cut cmp as₁ as₂ bs₁ bs₂) (has : (as₁ ++ as₂).Pairwise fun a b => (cmp a b).isLE)
    (hbs : (bs₁ ++ bs₂).Pairwise fun a b => (cmp a b).isLE)
    (hfront : Arranges cmp (as₁ ++ bs₁) front) (hback : Arranges cmp (as₂ ++ bs₂) back) :
    Arranges cmp (as₁ ++ as₂ ++ (bs₁ ++ bs₂)) (front ++ back) where
  perm := by
    refine (hfront.perm.append hback.perm).trans ?_
    simp only [List.append_assoc]
    have hswap : bs₁ ++ as₂ ~ as₂ ++ bs₁ := List.perm_append_comm
    simpa only [List.append_assoc] using (hswap.append_right bs₂).append_left as₁
  sorted := by
    refine List.pairwise_append.2 ⟨hfront.sorted, hback.sorted, fun x hx y hy => ?_⟩
    have hx := List.mem_append.1 (hfront.mem_iff.1 hx)
    have hy := List.mem_append.1 (hback.mem_iff.1 hy)
    rcases hx with hx | hx <;> rcases hy with hy | hy
    · exact (List.pairwise_append.1 has).2.2 x hx y hy
    · exact h.left x hx y hy
    · exact isLE_of_lt (h.right x hx y hy)
    · exact (List.pairwise_append.1 hbs).2.2 x hx y hy
  stable c := by
    rw [ties_append, hfront.stable, hback.stable]
    simp only [ties_append, List.append_assoc]
    rw [← List.append_assoc (ties cmp c bs₁), ← ties_comm h.right, List.append_assoc]

/-! ## Two halves -/

/-- What is left between the parts that are taken from the two ends of a list. -/
theorem exists_middle {as₁ as₂ as₃ as₄ : List α} (hfront : as = as₁ ++ as₂)
    (hback : as.reverse = as₃ ++ as₄) (h : as.length ≤ as₂.length + as₄.length) :
    ∃ middle, as = as₁ ++ middle ++ as₃.reverse ∧ as₂ = middle ++ as₃.reverse ∧
      as₄.reverse = as₁ ++ middle ∧
      as₂.take (as₂.length + as₄.length - as.length) = middle := by
  have hturned : as = as₄.reverse ++ as₃.reverse := by
    rw [← List.reverse_append, ← hback, List.reverse_reverse]
  have hlength : as₁.length + as₂.length = as₄.length + as₃.length := by
    rw [← List.length_append, ← hfront, ← List.length_reverse, hback, List.length_append,
      Nat.add_comm]
  rcases List.append_eq_append_iff.1 (hfront.symm.trans hturned) with ⟨m, hm, rfl⟩ | ⟨m, hm, hm'⟩
  · refine ⟨m, hfront.trans (List.append_assoc ..).symm, rfl, hm, ?_⟩
    have htake : (m ++ as₃.reverse).length + as₄.length - as.length = m.length := by
      have hfour := congrArg List.length hm
      rw [hfront]
      simp only [List.length_append, List.length_reverse] at hfour ⊢
      omega
    rw [htake, List.take_left]
  · have hnil : m = [] := by
      have hone := congrArg List.length hm
      rw [hfront] at h
      simp only [List.length_append, List.length_reverse] at hone h
      exact List.eq_nil_of_length_eq_zero (by omega)
    subst hnil
    rw [List.append_nil] at hm
    rw [List.nil_append] at hm'
    subst hm
    refine ⟨[], by simpa [hm'] using hfront, hm'.symm, (List.append_nil _).symm, ?_⟩
    have htake : as₂.length + as₄.length - as.length = 0 := by
      rw [hfront]
      simp only [List.length_append, List.length_reverse]
      omega
    rw [htake, List.take_zero]

theorem mergeHalves_perm (h : mergeHalves cmp as bs = some zs) : zs.Perm (as ++ bs) := by
  obtain ⟨as₁, bs₁, hfront, -⟩ :=
    exists_front cmp ((as.length + bs.length) / 2) as bs
  obtain ⟨bs₃, as₃, hback, -⟩ := exists_front (fun a b => cmp b a)
    ((as.length + bs.length) / 2) bs.reverse as.reverse
  unfold mergeHalves at h
  simp only at h
  split at h
  · rename_i hfit
    cases h
    obtain ⟨m, hm, -, -, hmiddle⟩ := exists_middle hfront.left hback.right hfit.1
    obtain ⟨n, hn, -, -, hmiddle'⟩ := exists_middle hfront.right hback.left hfit.2
    rw [hmiddle, hmiddle', hfront.merged, hback.merged]
    calc
      _ ~ as₁ ++ bs₁ ++ m ++ n ++ (bs₃ ++ as₃) :=
        (((mergeUp_perm as₁ bs₁).append_right m).append_right n).append
          ((List.reverse_perm _).trans (mergeUp_perm bs₃ as₃))
      _ ~ as₁ ++ m ++ as₃.reverse ++ (bs₁ ++ n ++ bs₃.reverse) := by
        classical
        refine List.perm_iff_count.2 fun x => ?_
        simp only [List.count_append, List.count_reverse]
        omega
      _ = as ++ bs := by rw [← hm, ← hn]
  · cases h

/-- A cut that is found from the ends of two lists. -/
theorem Cut.reverse {as₃ as₄ bs₃ bs₄ : List α} (h : Cut (fun a b => cmp b a) bs₃ bs₄ as₃ as₄) :
    Cut cmp as₄.reverse as₃.reverse bs₄.reverse bs₃.reverse where
  left a ha b hb := h.left b (List.mem_reverse.1 hb) a (List.mem_reverse.1 ha)
  right b hb a ha := h.right a (List.mem_reverse.1 ha) b (List.mem_reverse.1 hb)

/-- Two lists in order are used up from both ends, up to what one of them has in the middle. -/
structure Ends (cmp : α → α → Ordering) (as₁ m as₂ bs₁ n bs₂ : List α) : Prop where
  front : Cut cmp as₁ (m ++ as₂) bs₁ (n ++ bs₂)
  back : Cut cmp (as₁ ++ m) as₂ (bs₁ ++ n) bs₂
  middle : m = [] ∨ n = []

section Preorder

variable [Std.TransCmp cmp]

/-- The parts at both ends, merged there, make an arrangement with what lies between them. -/
theorem Ends.arranges {as₁ m as₂ bs₁ n bs₂ : List α} (h : Ends cmp as₁ m as₂ bs₁ n bs₂)
    (ha : (as₁ ++ m ++ as₂).Pairwise fun a b => (cmp a b).isLE)
    (hb : (bs₁ ++ n ++ bs₂).Pairwise fun a b => (cmp a b).isLE) :
    Arranges cmp (as₁ ++ m ++ as₂ ++ (bs₁ ++ n ++ bs₂)) (mergeUp cmp as₁ bs₁ ++ m ++ n ++
      (mergeUp (fun a b => cmp b a) bs₂.reverse as₂.reverse).reverse) := by
  have : Std.TransCmp fun a b => cmp b a := Std.TransCmp.opposite
  rw [List.append_assoc] at ha hb
  obtain ⟨ha₁, ham, -⟩ := List.pairwise_append.1 ha
  obtain ⟨hb₁, hbm, -⟩ := List.pairwise_append.1 hb
  obtain ⟨hm, ha₂, -⟩ := List.pairwise_append.1 ham
  obtain ⟨hn, hb₂, -⟩ := List.pairwise_append.1 hbm
  have hfront : Arranges cmp (as₁ ++ bs₁) (mergeUp cmp as₁ bs₁) :=
    (Arranges.of_sorted ha₁).mergeUp (.of_sorted hb₁)
  have hmiddle : Arranges cmp (m ++ n) (m ++ n) := by
    obtain rfl | rfl := h.middle
    · exact .of_sorted hn
    · rw [List.append_nil]
      exact .of_sorted hm
  have hback : Arranges cmp (as₂ ++ bs₂)
      (mergeUp (fun a b => cmp b a) bs₂.reverse as₂.reverse).reverse := by
    refine Arranges.reverse ?_
    rw [List.reverse_append]
    exact (Arranges.of_sorted (List.pairwise_reverse.2 hb₂)).mergeUp
      (.of_sorted (List.pairwise_reverse.2 ha₂))
  have hinner : Cut cmp m as₂ n bs₂ :=
    ⟨fun a ha => h.back.left a (List.mem_append_right _ ha),
      fun b hb => h.back.right b (List.mem_append_right _ hb)⟩
  have hall := h.front.arranges ha hb hfront (hinner.arranges ham hbm hmiddle hback)
  simpa only [List.append_assoc] using hall

/-- Lists in order are merged from both ends without an overlap. -/
theorem exists_ends (ha : as.Pairwise fun a b => (cmp a b).isLE)
    (hb : bs.Pairwise fun a b => (cmp a b).isLE) :
    ∃ as₁ m as₂ bs₁ n bs₂, as = as₁ ++ m ++ as₂ ∧ bs = bs₁ ++ n ++ bs₂ ∧
      Ends cmp as₁ m as₂ bs₁ n bs₂ ∧
      mergeHalves cmp as bs = some (mergeUp cmp as₁ bs₁ ++ m ++ n ++
        (mergeUp (fun a b => cmp b a) bs₂.reverse as₂.reverse).reverse) := by
  have : Std.TransCmp fun a b => cmp b a := Std.TransCmp.opposite
  obtain ⟨as₁, bs₁, hfront, hcut⟩ :=
    exists_front cmp ((as.length + bs.length) / 2) as bs
  obtain ⟨bs₃, as₃, hback, hcut'⟩ := exists_front (fun a b => cmp b a)
    ((as.length + bs.length) / 2) bs.reverse as.reverse
  have hcut := hcut ha hb
  have hcut' := (hcut' (List.pairwise_reverse.2 hb) (List.pairwise_reverse.2 ha)).reverse
  unfold mergeHalves
  simp only
  generalize mergeFront cmp ((as.length + bs.length) / 2) as bs = start at *
  generalize mergeFront (fun a b => cmp b a) ((as.length + bs.length) / 2) bs.reverse
    as.reverse = stop at *
  obtain ⟨front, as₂, bs₂⟩ := start
  obtain ⟨back, bs₄, as₄⟩ := stop
  simp only at *
  have hlengthA := congrArg List.length hfront.left
  have hlengthB := congrArg List.length hfront.right
  have hlengthA' := congrArg List.length hback.right
  have hlengthB' := congrArg List.length hback.left
  have hle := hfront.length_le
  have hle' := hback.length_le
  simp only [List.length_append, List.length_reverse] at hlengthA hlengthB hlengthA' hlengthB'
  have hturnedA : as₁ ++ as₂ = as₄.reverse ++ as₃.reverse := by
    rw [← hfront.left, ← List.reverse_append, ← hback.right, List.reverse_reverse]
  have hturnedB : bs₁ ++ bs₂ = bs₄.reverse ++ bs₃.reverse := by
    rw [← hfront.right, ← List.reverse_append, ← hback.left, List.reverse_reverse]
  obtain ⟨hleA, hleB⟩ := hcut.exists_between hturnedA hturnedB hcut'
    (by rw [List.length_reverse, List.length_reverse]; omega)
  rw [List.length_reverse] at hleA hleB
  rw [if_pos ⟨by omega, by omega⟩]
  obtain ⟨m, hm, rfl, hm', hmiddle⟩ := exists_middle hfront.left hback.right (by omega)
  obtain ⟨n, hn, rfl, hn', hmiddle'⟩ := exists_middle hfront.right hback.left (by omega)
  refine ⟨as₁, m, as₃.reverse, bs₁, n, bs₃.reverse, hm, hn, ⟨hcut, ?_, ?_⟩, ?_⟩
  · rwa [hm', hn'] at hcut'
  · have hempty : m.length = 0 ∨ n.length = 0 := by
      have hstart := hfront.stops
      have hstop := hback.stops
      simp only [← List.length_eq_zero_iff] at hstart hstop
      simp only [List.length_append, List.length_reverse] at hlengthA hlengthB hstart
      omega
    exact hempty.imp List.eq_nil_of_length_eq_zero List.eq_nil_of_length_eq_zero
  · rw [hmiddle, hmiddle', hfront.merged, hback.merged, List.reverse_reverse, List.reverse_reverse]

/-- Halves that are arranged are merged from both ends into an arrangement of both. -/
theorem exists_mergeHalves (ha : Arranges cmp xs as) (hb : Arranges cmp ys bs) :
    ∃ zs, mergeHalves cmp as bs = some zs ∧ Arranges cmp (xs ++ ys) zs := by
  obtain ⟨as₁, m, as₂, bs₁, n, bs₂, rfl, rfl, hends, hsome⟩ := exists_ends ha.sorted hb.sorted
  exact ⟨_, hsome, ha.of_parts hb (hends.arranges ha.sorted hb.sorted)⟩

end Preorder

/-! ## Short lists -/

variable (cmp) in
theorem settled_sortFour (xs : List α) : Settled cmp xs (sortFour cmp xs) :=
  ⟨sortFour_perm xs, fun _ => arranges_sortFour xs⟩

theorem mergeHalves_yields (ha : Settled cmp xs as) (hb : Settled cmp ys bs) :
    Yields (Std.TransCmp cmp) (Settled cmp (xs ++ ys)) (mergeHalves cmp as bs) := by
  cases hzs : mergeHalves cmp as bs with
  | none =>
    intro _
    obtain ⟨zs, hsome, -⟩ := exists_mergeHalves (ha.arranges ‹_›) (hb.arranges ‹_›)
    rw [hzs] at hsome
    cases hsome
  | some zs =>
    refine ⟨(mergeHalves_perm hzs).trans (ha.perm.append hb.perm), fun _ => ?_⟩
    obtain ⟨zs', hsome, harranges⟩ := exists_mergeHalves (ha.arranges ‹_›) (hb.arranges ‹_›)
    cases hzs.symm.trans hsome
    exact harranges

theorem sortHalf_yields (n : Nat) (xs : List α) :
    Yields (Std.TransCmp cmp) (Settled cmp xs) (sortHalf cmp n xs) := by
  unfold sortHalf
  split
  · refine (mergeHalves_yields (settled_sortFour cmp (xs.take 4))
      (settled_sortFour cmp ((xs.drop 4).take 4))).map fun start hstart => ?_
    have hall := hstart.insertAll (xs.drop 8)
    rwa [← List.take_add, List.take_append_drop] at hall
  · split
    · have hall := (settled_sortFour cmp (xs.take 4)).insertAll (xs.drop 4)
      rwa [List.take_append_drop] at hall
    · exact settled_insertAll xs

/-- A short list is sorted. -/
theorem sortShort_yields (xs : List α) :
    Yields (Std.TransCmp cmp) (Settled cmp xs) (sortShort cmp xs) := by
  refine (sortHalf_yields _ (xs.take (xs.length / 2))).bind fun as ha => ?_
  refine (sortHalf_yields _ (xs.drop (xs.length / 2))).bind fun bs hb => ?_
  have hall := mergeHalves_yields ha hb
  rwa [List.take_append_drop] at hall

end DataGrid.StableSort
