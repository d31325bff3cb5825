import DataGrid.Text.Pieces
import Mathlib.Data.List.DropRight

/-!
# Trimmed texts

Trimming leaves a text that begins and ends with no blank, so a second trimming changes nothing,
and it takes blanks only, so the pieces of the text stay the same up to blanks at their ends.
-/

namespace DataGrid

namespace Text

theorem trimEnd_trimEnd (s : List Char) : trimEnd (trimEnd s) = trimEnd s := by
  unfold trimEnd
  rw [List.reverse_reverse, List.dropWhile_idempotent]

theorem trim_cons {c : Char} (hc : isBlank c = false) (s : List Char) :
    trim (c :: s) = c :: trimEnd s := trim_append_cons hc [] s

theorem trimStart_cons {c : Char} (hc : isBlank c = false) (s : List Char) :
    trimStart (c :: s) = c :: s := List.dropWhile_cons_of_neg (by rw [hc]; decide)

/-- A text of blanks is trimmed to nothing, any other one from its first character that is no
blank. -/
theorem trim_cases (s : List Char) :
    trimStart s = [] ∧ trim s = [] ∨
      ∃ c rest, isBlank c = false ∧ trimStart s = c :: rest ∧ trim s = c :: trimEnd rest := by
  have hhead := List.head?_dropWhile_not isBlank s
  cases hs : trimStart s with
  | nil =>
    refine .inl ⟨rfl, ?_⟩
    unfold trim
    rw [hs]
    rfl
  | cons c rest =>
    have hc : isBlank c = false := by
      rw [show s.dropWhile isBlank = c :: rest from hs] at hhead
      exact hhead
    have hagain := trim_cons hc rest
    unfold trim at hagain ⊢
    rw [trimStart_cons hc] at hagain
    rw [hs]
    exact .inr ⟨c, rest, hc, rfl, hagain⟩

/-- Trimming leaves nothing of blanks only. -/
theorem isEmpty_trim (s : List Char) :
    (trim s).isEmpty = true ↔ ∀ ch ∈ s, isBlank ch = true := by
  rw [List.isEmpty_iff]
  rcases trim_cases s with ⟨hstart, htrim⟩ | ⟨ch, rest, hch, hstart, htrim⟩
  · rw [htrim]
    exact iff_of_true rfl (List.dropWhile_eq_nil_iff.1 hstart)
  · rw [htrim]
    refine iff_of_false (List.cons_ne_nil _ _) fun hall => ?_
    obtain ⟨hsuffix, -⟩ := trim_suffix_prefix s
    have hmem : ch ∈ trimStart s := hstart ▸ List.mem_cons_self
    rw [hall ch (hsuffix.subset hmem)] at hch
    cases hch

theorem trim_trim (s : List Char) : trim (trim s) = trim s := by
  rcases trim_cases s with ⟨-, hblank⟩ | ⟨c, rest, hc, -, htrim⟩
  · rw [hblank]
    rfl
  · rw [htrim, trim_cons hc, trimEnd_trimEnd]

theorem dropWhile_eq_self_iff_head? {p : Char → Bool} {s : List Char} :
    s.dropWhile p = s ↔ ∀ c ∈ s.head?, p c = false := by
  cases s with
  | nil => simp
  | cons c s => simp [List.dropWhile_eq_self_iff]

/-- Trimming changes nothing exactly if no blank stands at an end. -/
theorem trim_eq_self_iff {s : List Char} : trim s = s ↔
    (∀ c ∈ s.head?, isBlank c = false) ∧ ∀ c ∈ s.getLast?, isBlank c = false := by
  rw [← List.head?_reverse, ← dropWhile_eq_self_iff_head?, ← dropWhile_eq_self_iff_head?]
  constructor
  · intro h
    obtain ⟨hstart, hend⟩ := trimStart_trimEnd_of_trim h
    exact ⟨hstart, List.reverse_eq_iff.1 hend⟩
  · rintro ⟨hstart, hend⟩
    unfold trim trimEnd trimStart
    rw [hstart, hend, List.reverse_reverse]

/-- Trimming takes blanks at both ends, and nothing else. -/
theorem exists_blanks (s : List Char) : ∃ before after, s = before ++ (trim s ++ after) ∧
    (∀ c ∈ before, isBlank c = true) ∧ ∀ c ∈ after, isBlank c = true := by
  have hstart : s.takeWhile isBlank ++ trimStart s = s := List.takeWhile_append_dropWhile
  have hend : trim s ++ ((trimStart s).reverse.takeWhile isBlank).reverse = trimStart s := by
    unfold trim trimEnd
    rw [← List.reverse_append, List.takeWhile_append_dropWhile, List.reverse_reverse]
  refine ⟨s.takeWhile isBlank, ((trimStart s).reverse.takeWhile isBlank).reverse, ?_, ?_, ?_⟩
  · rw [hend, hstart]
  · exact fun c hc => List.mem_takeWhile_imp hc
  · exact fun c hc => List.mem_takeWhile_imp (List.mem_reverse.1 hc)

theorem trim_append_blanks {before after : List Char} (hbefore : ∀ c ∈ before, isBlank c = true)
    (hafter : ∀ c ∈ after, isBlank c = true) (s : List Char) :
    trim (before ++ (s ++ after)) = trim s := by
  by_cases hs : ∀ c ∈ s, isBlank c = true
  · have hall : ∀ c ∈ before ++ (s ++ after), isBlank c = true := by
      rw [List.forall_mem_append, List.forall_mem_append]
      exact ⟨hbefore, hs, hafter⟩
    rw [List.isEmpty_iff.1 ((isEmpty_trim _).2 hall), List.isEmpty_iff.1 ((isEmpty_trim _).2 hs)]
  · push Not at hs
    obtain ⟨c, hmem, hc⟩ := hs
    have hc : isBlank c = false := Bool.eq_false_iff.2 hc
    obtain ⟨x, y, rfl⟩ := List.append_of_mem hmem
    have hstart : trimStart (before ++ x) = trimStart x := List.dropWhile_append_of_pos hbefore
    have hend : trimEnd (y ++ after) = trimEnd y := by
      unfold trimEnd
      rw [List.reverse_append, List.dropWhile_append_of_pos
        fun c hc => hafter c (List.mem_reverse.1 hc)]
    have hsplit : before ++ (x ++ c :: y ++ after) = (before ++ x) ++ c :: (y ++ after) := by simp
    rw [hsplit, trim_append_cons hc, trim_append_cons hc, hstart, hend]

section Pieces

variable {sep : Char} (hsep : isBlank sep = false)

include hsep

theorem not_mem_blanks {run : List Char} (h : ∀ c ∈ run, isBlank c = true) : sep ∉ run := by
  intro hmem
  rw [h sep hmem] at hsep
  cases hsep

/-- Of blanks around a text the first run takes those before it, the last one those behind it. -/
theorem map_trim_pieces_joined {runs : List (List Char)} (hne : runs ≠ [])
    (hruns : ∀ run ∈ runs, sep ∉ run) {before after : List Char}
    (hbefore : ∀ c ∈ before, isBlank c = true) (hafter : ∀ c ∈ after, isBlank c = true) :
    (pieces sep (before ++ (joined sep runs ++ after))).map trim = runs.map trim := by
  have hnil : ∀ c ∈ ([] : List Char), isBlank c = true := fun c hc => by cases hc
  induction runs generalizing before with
  | nil => exact absurd rfl hne
  | cons run runs ih =>
    rw [List.forall_mem_cons] at hruns
    cases runs with
    | nil =>
      have hwhole : sep ∉ before ++ (run ++ after) := by
        rw [List.mem_append, List.mem_append]
        rintro (h | h | h)
        · exact not_mem_blanks hsep hbefore h
        · exact hruns.1 h
        · exact not_mem_blanks hsep hafter h
      rw [joined, pieces_of_not_mem hwhole, List.map_singleton, List.map_singleton,
        trim_append_blanks hbefore hafter]
    | cons next runs =>
      have hfirst : sep ∉ before ++ (run ++ []) := by
        rw [List.append_nil, List.mem_append]
        rintro (h | h)
        · exact not_mem_blanks hsep hbefore h
        · exact hruns.1 h
      have hsplit : before ++ (joined sep (run :: next :: runs) ++ after) =
          (before ++ (run ++ [])) ++ sep :: ([] ++ (joined sep (next :: runs) ++ after)) := by
        simp [joined]
      rw [hsplit, pieces_append hfirst, List.map_cons, List.map_cons,
        trim_append_blanks hbefore hnil, ih (List.cons_ne_nil _ _) hruns.2 hnil]

theorem map_trim_pieces_trim (s : List Char) :
    (pieces sep (trim s)).map trim = (pieces sep s).map trim := by
  obtain ⟨before, after, hs, hbefore, hafter⟩ := exists_blanks s
  have hpieces := map_trim_pieces_joined hsep (pieces_ne_nil sep (trim s))
    (fun run hrun => not_mem_of_mem_pieces hrun) hbefore hafter
  rw [joined_pieces, ← hs] at hpieces
  exact hpieces.symm

end Pieces

end Text

end DataGrid
