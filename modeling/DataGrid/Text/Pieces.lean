import DataGrid.Text.Blank

/-!
# Cutting a text at a separator

`pieces` cuts at every separator and is undone by `joined`; `cutAt` cuts at the
first one only. `joinLines` writes lines of their own.
-/

namespace DataGrid.Text

/-- The runs between the separators, the empty ones included. There is always at
least one run. -/
def pieces (sep : Char) : List Char → List (List Char)
  | [] => [[]]
  | c :: rest =>
    if c = sep then [] :: pieces sep rest
    else match pieces sep rest with
      | [] => [[c]]
      | run :: runs => (c :: run) :: runs

/-- The runs with one separator between two neighbours. -/
def joined (sep : Char) : List (List Char) → List Char
  | [] => []
  | [run] => run
  | run :: next :: runs => run ++ sep :: joined sep (next :: runs)

/-- The lines, each with its line end. -/
def joinLines (lines : List String) : String :=
  lines.foldr (fun line rest => line ++ "\n" ++ rest) ""

/-- The text before and after the first separator, if there is one. -/
def cutAt (sep : Char) : List Char → Option (List Char × List Char)
  | [] => none
  | c :: rest =>
    if c = sep then some ([], rest)
    else (cutAt sep rest).map fun (before, after) => (c :: before, after)

theorem pieces_ne_nil (sep : Char) (s : List Char) : pieces sep s ≠ [] := by
  cases s with
  | nil => simp [pieces]
  | cons c rest =>
    rw [pieces]
    split
    · simp
    · split <;> simp

/-- Joining the pieces of a text gives the text back. -/
theorem joined_pieces (sep : Char) (s : List Char) : joined sep (pieces sep s) = s := by
  induction s with
  | nil => rfl
  | cons c rest ih =>
    rw [pieces]
    split
    · rename_i h
      subst h
      cases hp : pieces c rest with
      | nil => exact absurd hp (pieces_ne_nil c rest)
      | cons run runs => rw [joined, List.nil_append, ← hp, ih]
    · cases hp : pieces sep rest with
      | nil => exact absurd hp (pieces_ne_nil sep rest)
      | cons run runs =>
        rw [hp] at ih
        cases runs with
        | nil => simpa [joined] using ih
        | cons next runs => simpa [joined] using ih

/-- No piece holds a separator. -/
theorem not_mem_of_mem_pieces {sep : Char} {s run : List Char} (h : run ∈ pieces sep s) :
    sep ∉ run := by
  induction s generalizing run with
  | nil => simp only [pieces, List.mem_singleton] at h; simp [h]
  | cons c rest ih =>
    rw [pieces] at h
    split at h
    · rcases List.mem_cons.1 h with rfl | h
      · simp
      · exact ih h
    · rename_i hc
      cases hp : pieces sep rest with
      | nil => exact absurd hp (pieces_ne_nil sep rest)
      | cons first runs =>
        rw [hp] at h ih
        rcases List.mem_cons.1 h with rfl | h
        · have := ih (List.mem_cons_self ..)
          simp [this, Ne.symm hc]
        · exact ih (List.mem_cons_of_mem _ h)

/-- A separator between two texts keeps their pieces apart. -/
theorem pieces_append_separator (sep : Char) (s t : List Char) :
    pieces sep (s ++ sep :: t) = pieces sep s ++ pieces sep t := by
  induction s with
  | nil =>
    show pieces sep (sep :: t) = [] :: pieces sep t
    rw [pieces, if_pos rfl]
  | cons c s ih =>
    rw [List.cons_append, pieces, pieces]
    by_cases hc : c = sep
    · rw [if_pos hc, if_pos hc, ih]
      rfl
    · rw [if_neg hc, if_neg hc, ih]
      cases hs : pieces sep s with
      | nil => exact absurd hs (pieces_ne_nil sep s)
      | cons run runs => rfl

theorem pieces_of_not_mem {sep : Char} {run : List Char} (hrun : sep ∉ run) :
    pieces sep run = [run] := by
  induction run with
  | nil => rfl
  | cons c run ih =>
    rw [List.mem_cons, not_or] at hrun
    rw [pieces, if_neg (Ne.symm hrun.1), ih hrun.2]

theorem pieces_append {sep : Char} {run : List Char} (hrun : sep ∉ run) (rest : List Char) :
    pieces sep (run ++ sep :: rest) = run :: pieces sep rest := by
  rw [pieces_append_separator, pieces_of_not_mem hrun]
  rfl

/-- Runs without a separator are the pieces of the text that joins them. -/
theorem pieces_joined {sep : Char} {runs : List (List Char)} (hne : runs ≠ [])
    (hruns : ∀ run ∈ runs, sep ∉ run) : pieces sep (joined sep runs) = runs := by
  induction runs with
  | nil => exact absurd rfl hne
  | cons run runs ih =>
    rw [List.forall_mem_cons] at hruns
    cases runs with
    | nil => exact pieces_of_not_mem hruns.1
    | cons next runs => rw [joined, pieces_append hruns.1, ih (List.cons_ne_nil _ _) hruns.2]

/-- One more run stands behind one more separator. -/
theorem joined_concat {sep : Char} {runs : List (List Char)} (hne : runs ≠ []) (run : List Char) :
    joined sep (runs ++ [run]) = joined sep runs ++ sep :: run := by
  induction runs with
  | nil => exact absurd rfl hne
  | cons first runs ih =>
    cases runs with
    | nil => rfl
    | cons next runs =>
      have hrest := ih (List.cons_ne_nil next runs)
      rw [List.cons_append] at hrest ⊢
      rw [List.cons_append, joined, joined, hrest]
      simp

theorem mem_joined {sep c : Char} {runs : List (List Char)} {run : List Char} (hrun : run ∈ runs)
    (hc : c ∈ run) : c ∈ joined sep runs := by
  induction runs with
  | nil => cases hrun
  | cons first runs ih =>
    cases runs with
    | nil => exact List.mem_singleton.1 hrun ▸ hc
    | cons next runs =>
      rw [joined, List.mem_append, List.mem_cons]
      rcases List.mem_cons.1 hrun with rfl | hrun
      · exact .inl hc
      · exact .inr (.inr (ih hrun))

theorem of_mem_joined {sep c : Char} {runs : List (List Char)} (h : c ∈ joined sep runs) :
    c = sep ∨ ∃ run ∈ runs, c ∈ run := by
  induction runs with
  | nil => cases h
  | cons run runs ih =>
    cases runs with
    | nil => exact .inr ⟨run, List.mem_cons_self, h⟩
    | cons next runs =>
      rw [joined, List.mem_append, List.mem_cons] at h
      obtain h | rfl | h := h
      · exact .inr ⟨run, List.mem_cons_self, h⟩
      · exact .inl rfl
      · obtain hsep | ⟨run', hrun', hc⟩ := ih h
        · exact .inl hsep
        · exact .inr ⟨run', List.mem_cons_of_mem run hrun', hc⟩

theorem cutAt_append {sep : Char} {before : List Char} (h : sep ∉ before) (after : List Char) :
    cutAt sep (before ++ sep :: after) = some (before, after) := by
  induction before with
  | nil => rw [List.nil_append, cutAt, if_pos rfl]
  | cons c before ih =>
    rw [List.mem_cons, not_or] at h
    rw [List.cons_append, cutAt, if_neg (Ne.symm h.1), ih h.2]
    rfl

end DataGrid.Text
