import DataGrid.Query.Predicate
import DataGrid.Text.Take

/-!
# Quoted literals

A reader of literals takes two quotes in a row as one quote of the text, and ends at the first quote
that is not doubled. Every quote of a rendered text is doubled, and the wildcards of a pattern are
no quotes, so the reader of a rendered literal gets to its last character, whatever follows there,
and gives the text with its wildcards.
-/

namespace DataGrid

open Text

namespace Text

/-! ## Reading a literal -/

/-- The text up to the first quote that is not doubled, and what follows that quote. -/
def takeBody : Take (List Char)
  | [] => none
  | [c] => if c = quoteMark then some ([], []) else none
  | c :: d :: rest =>
    if c ≠ quoteMark then (takeBody (d :: rest)).map fun (body, after) => (c :: body, after)
    else if d = quoteMark then (takeBody rest).map fun (body, after) => (quoteMark :: body, after)
    else some ([], d :: rest)

/-- The text of the literal at the head of a text, and what follows the literal. -/
def takeQuoted : Take (List Char) := fun s => (expect quoteMark s).bind takeBody

variable {s rest : List Char} {c : Char}

/-- A quote that no quote follows ends the literal. -/
theorem takeBody_quote (h : rest.head? ≠ some quoteMark) :
    takeBody (quoteMark :: rest) = some ([], rest) := by
  cases rest with
  | nil => rfl
  | cons d rest =>
    have hd : d ≠ quoteMark := fun heq => h (congrArg some heq)
    rw [takeBody, if_neg (not_not_intro rfl), if_neg hd]

theorem takeBody_quotes (rest : List Char) : takeBody (quoteMark :: quoteMark :: rest) =
    (takeBody rest).map fun (body, after) => (quoteMark :: body, after) := by
  rw [takeBody, if_neg (not_not_intro rfl), if_pos rfl]

theorem takeBody_cons (hc : c ≠ quoteMark) (rest : List Char) :
    takeBody (c :: rest) = (takeBody rest).map fun (body, after) => (c :: body, after) := by
  cases rest with
  | nil => exact if_neg hc
  | cons d rest => rw [takeBody, if_pos hc]

/-! ## Doubled quotes -/

theorem doubleQuotes_append (s t : List Char) :
    doubleQuotes (s ++ t) = doubleQuotes s ++ doubleQuotes t := by
  induction s with
  | nil => rfl
  | cons c s ih =>
    rw [List.cons_append, doubleQuotes, doubleQuotes, ih]
    split <;> rfl

theorem doubleQuotes_of_not_mem (h : quoteMark ∉ s) : doubleQuotes s = s := by
  induction s with
  | nil => rfl
  | cons c s ih =>
    rw [List.mem_cons, not_or] at h
    rw [doubleQuotes, if_neg (Ne.symm h.1), ih h.2]

/-- The quotes of a text do not end its literal. -/
theorem takeBody_doubleQuotes (s : List Char) (h : rest.head? ≠ some quoteMark) :
    takeBody (doubleQuotes s ++ quoteMark :: rest) = some (s, rest) := by
  induction s with
  | nil => exact takeBody_quote h
  | cons c s ih =>
    by_cases hc : c = quoteMark
    · rw [doubleQuotes, if_pos hc, List.cons_append, List.cons_append, takeBody_quotes, ih, hc]
      rfl
    · rw [doubleQuotes, if_neg hc, List.cons_append, takeBody_cons hc, ih]
      rfl

/-- A literal is read as its text between what is added at the ends. -/
theorem takeQuoted_quotedBetween {before after : List Char} (hbefore : quoteMark ∉ before)
    (hafter : quoteMark ∉ after) (s : List Char) (h : rest.head? ≠ some quoteMark) :
    takeQuoted (quotedBetween before after s ++ rest) = some (before ++ s ++ after, rest) := by
  have hbody : quotedBetween before after s ++ rest =
      quoteMark :: (doubleQuotes (before ++ s ++ after) ++ quoteMark :: rest) := by
    rw [doubleQuotes_append, doubleQuotes_append, doubleQuotes_of_not_mem hbefore,
      doubleQuotes_of_not_mem hafter, quotedBetween]
    simp
  rw [hbody, takeQuoted, expect, if_pos rfl, Option.bind_some, takeBody_doubleQuotes _ h]

/-- One literal stands for one text. -/
theorem quotedBetween_inj {before after : List Char} (hbefore : quoteMark ∉ before)
    (hafter : quoteMark ∉ after) {s t : List Char} :
    quotedBetween before after s = quotedBetween before after t ↔ s = t := by
  have hend : ([] : List Char).head? ≠ some quoteMark := by simp
  refine ⟨fun h => ?_, fun h => congrArg _ h⟩
  have hs := takeQuoted_quotedBetween hbefore hafter s hend
  rw [h, takeQuoted_quotedBetween hbefore hafter t hend] at hs
  have hbody := congrArg Prod.fst (Option.some.inj hs)
  exact (List.append_cancel_left (List.append_cancel_right hbody)).symm

end Text

/-! ## Patterns -/

namespace TextMatch

/-- The wildcard in front of a pattern. -/
def opening : TextMatch → List Char
  | contains | endsWith => ['%']
  | startsWith => []

/-- The wildcard behind a pattern. -/
def closing : TextMatch → List Char
  | contains | startsWith => ['%']
  | endsWith => []

variable (m : TextMatch)

theorem literal_toList (t : String) :
    (m.literal t).toList = quotedBetween m.opening m.closing t.toList := by
  cases m <;> exact String.toList_ofList

theorem quoteMark_not_mem : quoteMark ∉ m.opening ∧ quoteMark ∉ m.closing := by
  cases m <;> decide

end TextMatch

theorem Value.render_text_toList (t : String) :
    (Value.text t).render.toList = quotedBetween [] [] t.toList := String.toList_ofList

/-- **A text cannot leave its literal.** The literal of a text, and that of a pattern for any match,
are read up to their last character, whatever follows but a quote, and give the text, or the pattern
with the wildcards of the match at its ends. So one literal stands for one text, and for one pattern
of a match. -/
theorem Text.takeQuoted_rendered (t : String) :
    (∀ rest : List Char, rest.head? ≠ some quoteMark →
      takeQuoted ((Value.text t).render.toList ++ rest) = some (t.toList, rest) ∧
      ∀ m : TextMatch, takeQuoted ((m.literal t).toList ++ rest) =
        some (m.opening ++ t.toList ++ m.closing, rest)) ∧
    ∀ u : String, ((Value.text t).render = (Value.text u).render ↔ t = u) ∧
      ∀ m : TextMatch, m.literal t = m.literal u ↔ t = u := by
  have hnone : quoteMark ∉ ([] : List Char) := List.not_mem_nil
  refine ⟨fun rest h => ⟨?_, fun m => ?_⟩, fun u => ⟨?_, fun m => ?_⟩⟩
  · rw [Value.render_text_toList, takeQuoted_quotedBetween hnone hnone _ h, List.nil_append,
      List.append_nil]
  · obtain ⟨hopening, hclosing⟩ := m.quoteMark_not_mem
    rw [m.literal_toList, takeQuoted_quotedBetween hopening hclosing _ h]
  · rw [← String.toList_inj, Value.render_text_toList, Value.render_text_toList,
      quotedBetween_inj hnone hnone, String.toList_inj]
  · obtain ⟨hopening, hclosing⟩ := m.quoteMark_not_mem
    rw [← String.toList_inj, m.literal_toList, m.literal_toList,
      quotedBetween_inj hopening hclosing, String.toList_inj]

/-- Quotes at the ends of a pattern and next to each other, and a condition behind the literal. -/
theorem Text.takeQuoted_rendered_of_condition :
    " AND x = 1".toList.head? ≠ some quoteMark ∧
      TextMatch.contains.literal "' OR ''='" = "'%'' OR ''''=''%'" ∧
      takeQuoted "'%'' OR ''''=''%' AND x = 1".toList =
        some ("%' OR ''='%".toList, " AND x = 1".toList) := by
  have hrest : " AND x = 1".toList.head? ≠ some quoteMark := by decide
  have hliteral : TextMatch.contains.literal "' OR ''='" = "'%'' OR ''''=''%'" := by
    decide +kernel
  have hread := ((takeQuoted_rendered "' OR ''='").1 _ hrest).2 .contains
  rw [hliteral] at hread
  exact ⟨hrest, hliteral, hread⟩

end DataGrid
