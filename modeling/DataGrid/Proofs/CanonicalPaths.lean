import DataGrid.Path
import DataGrid.Proofs.TrimmedText

/-!
# Canonical paths

An expression is a path unless a piece between its dots is blank. The segments of a path are then
segments of their own text: they hold no dot and no blank at an end, so the rendered path is cut at
its dots into the segments that were joined, and is parsed as the path itself. The same is true of
the parent, which has all segments but the last.
-/

namespace DataGrid

open Text

namespace Path

/-- A text that stands for itself between two dots. -/
structure Segment (s : List Char) : Prop where
  nonempty : s ≠ []
  no_dot : '.' ∉ s
  first : ∀ c ∈ s.head?, isBlank c = false
  last : ∀ c ∈ s.getLast?, isBlank c = false

/-- A path of one or more segments that stand for themselves. -/
structure Canonical (p : Path) : Prop where
  nonempty : p.segments ≠ []
  segment : ∀ name ∈ p.segments, Segment name.toList

variable {e : String} {p q : Path}

/-! ## Parsing -/

theorem segmentsOf?_eq (s : List Char) : segmentsOf? s =
    if ((pieces '.' s).map trim).any (·.isEmpty) then none
    else some ((pieces '.' s).map trim) := by
  unfold segmentsOf?
  rw [map_trim_pieces_trim (by decide)]

theorem any_isEmpty_iff (s : List Char) : ((pieces '.' s).map trim).any (·.isEmpty) = true ↔
    ∃ run ∈ pieces '.' s, ∀ c ∈ run, isBlank c = true := by
  simp only [List.any_map, List.any_eq_true, Function.comp_apply, isEmpty_trim]

/-- An expression is no path exactly if a piece between its dots is blank. -/
theorem parse?_eq_none_iff : parse? e = none ↔
    ∃ run ∈ pieces '.' e.toList, ∀ c ∈ run, isBlank c = true := by
  rw [← any_isEmpty_iff, parse?, Option.map_eq_none_iff, segmentsOf?_eq]
  split
  · exact iff_of_true rfl ‹_›
  · exact iff_of_false (Option.some_ne_none _) ‹_›

theorem segments_of_parse? (h : parse? e = some p) :
    p.segments = (pieces '.' e.toList).map fun run => String.ofList (trim run) := by
  obtain ⟨segments, hsegments, rfl⟩ := Option.map_eq_some_iff.1 h
  rw [segmentsOf?_eq] at hsegments
  split at hsegments
  · cases hsegments
  · obtain rfl := Option.some.inj hsegments
    rw [List.map_map]
    rfl

theorem segments_ne_nil (h : parse? e = some p) : p.segments ≠ [] := by
  rw [segments_of_parse? h, ne_eq, List.map_eq_nil_iff]
  exact pieces_ne_nil '.' e.toList

/-! ## Canonical segments -/

/-- Trimming makes a segment of a run between two dots, unless the run is blank. -/
theorem segment_trim {run : List Char} (hdot : '.' ∉ run)
    (hblank : ¬ ∀ c ∈ run, isBlank c = true) : Segment (trim run) := by
  obtain ⟨hfirst, hlast⟩ := trim_eq_self_iff.1 (trim_trim run)
  obtain ⟨before, after, hrun, -, -⟩ := exists_blanks run
  refine ⟨fun hnil => ?_, fun hmem => hdot ?_, hfirst, hlast⟩
  · exact hblank ((isEmpty_trim run).1 (List.isEmpty_iff.2 hnil))
  · rw [hrun]
    exact List.mem_append_right before (List.mem_append_left after hmem)

/-- An expression is parsed as a canonical path. -/
theorem canonical_of_parse? (h : parse? e = some p) : Canonical p where
  nonempty := segments_ne_nil h
  segment := by
    intro name hname
    rw [segments_of_parse? h] at hname
    obtain ⟨run, hrun, rfl⟩ := List.mem_map.1 hname
    rw [String.toList_ofList]
    refine segment_trim (not_mem_of_mem_pieces hrun) fun hblank => ?_
    have hnone := parse?_eq_none_iff.2 ⟨run, hrun, hblank⟩
    rw [h] at hnone
    cases hnone

/-! ## Rendering -/

theorem render_toList (p : Path) : p.render.toList = joined '.' (p.segments.map String.toList) :=
  String.toList_ofList

namespace Canonical

variable (h : Canonical p)

include h

/-- The rendered path is cut into the segments of the path. -/
theorem pieces_render : pieces '.' p.render.toList = p.segments.map String.toList := by
  rw [render_toList]
  refine pieces_joined (fun hnil => h.nonempty (List.map_eq_nil_iff.1 hnil)) fun run hrun => ?_
  obtain ⟨name, hname, rfl⟩ := List.mem_map.1 hrun
  exact (h.segment name hname).no_dot

/-- A canonical path is parsed from its own text. -/
theorem parse?_render : parse? p.render = some p := by
  have hsome : parse? p.render ≠ none := by
    rw [ne_eq, parse?_eq_none_iff, h.pieces_render]
    rintro ⟨run, hrun, hblank⟩
    obtain ⟨name, hname, rfl⟩ := List.mem_map.1 hrun
    obtain ⟨c, rest, hc⟩ := List.exists_cons_of_ne_nil (h.segment name hname).nonempty
    have hfirst := (h.segment name hname).first c (by rw [hc]; rfl)
    rw [hblank c (hc ▸ List.mem_cons_self)] at hfirst
    cases hfirst
  obtain ⟨q, hq⟩ := Option.ne_none_iff_exists'.1 hsome
  have hsegments : q.segments = p.segments := by
    rw [segments_of_parse? hq, h.pieces_render, List.map_map]
    refine (List.map_congr_left fun name hname => ?_).trans (List.map_id p.segments)
    have hsegment := h.segment name hname
    show String.ofList (trim name.toList) = name
    rw [trim_eq_self_iff.2 ⟨hsegment.first, hsegment.last⟩, String.ofList_toList]
  rw [hq]
  exact congrArg (fun segments => some (Path.mk segments)) hsegments

/-- The text of a path is the text of its parent, a dot and its leaf, or its leaf alone. -/
theorem parent?_cases : p.parent? = none ∧ p.render = p.leaf ∨
    ∃ q, p.parent? = some q ∧ Canonical q ∧ p.render = q.render ++ "." ++ p.leaf := by
  obtain ⟨front, name, hsegments⟩ := (List.eq_nil_or_concat' p.segments).resolve_left h.nonempty
  have hleaf : p.leaf = name := by
    rw [leaf, hsegments, List.getLastD_concat]
  have hrender : p.render = String.ofList (joined '.' (front.map String.toList ++ [name.toList])) := by
    rw [render, hsegments, List.map_append, List.map_singleton]
  rw [parent?, hsegments, hleaf, hrender]
  by_cases hfront : front = []
  · refine .inl ⟨?_, ?_⟩
    · rw [hfront]
      rfl
    · rw [hfront]
      exact String.ofList_toList
  · have hlength : ¬ (front ++ [name]).length < 2 := by
      have hpos := List.length_pos_iff.2 hfront
      rw [List.length_append, List.length_singleton]
      omega
    refine .inr ⟨⟨front⟩, ?_, ⟨hfront, fun run hrun => h.segment run ?_⟩, ?_⟩
    · rw [if_neg hlength, List.dropLast_concat]
    · rw [hsegments]
      exact List.mem_append_left [name] hrun
    · refine String.toList_injective ?_
      rw [String.toList_ofList, joined_concat (fun hnil => hfront (List.map_eq_nil_iff.1 hnil)),
        String.toList_append, String.toList_append, render_toList]
      simp

end Canonical

/-- **Paths have a canonical form.** An expression is no path exactly if it is blank or a piece
between its dots is. The segments of a path hold no dot and have no blank at an end, the path is
parsed from its own text, and so is its parent, whose text is followed by a dot and the leaf; a path
without a parent is its leaf. Two expressions have the same path exactly if the paths have the same
text. -/
theorem parse?_canonical (e : String) :
    (parse? e = none ↔ (∀ c ∈ e.toList, isBlank c = true) ∨
      ∃ run ∈ pieces '.' e.toList, ∀ c ∈ run, isBlank c = true) ∧
    ∀ p, parse? e = some p →
      Canonical p ∧ parse? p.render = some p ∧
      (p.parent? = none ∧ p.render = p.leaf ∨
        ∃ q, p.parent? = some q ∧ parse? q.render = some q ∧
          p.render = q.render ++ "." ++ p.leaf) ∧
      ∀ f q, parse? f = some q → (p = q ↔ p.render = q.render) := by
  refine ⟨?_, fun p h => ?_⟩
  · rw [parse?_eq_none_iff]
    refine ⟨.inr, fun hblank => ?_⟩
    refine hblank.elim (fun hall => ?_) id
    obtain ⟨run, hrun⟩ := List.exists_mem_of_ne_nil _ (pieces_ne_nil '.' e.toList)
    refine ⟨run, hrun, fun c hc => hall c ?_⟩
    rw [← joined_pieces '.' e.toList]
    exact mem_joined hrun hc
  · have hp := canonical_of_parse? h
    refine ⟨hp, hp.parse?_render, ?_, fun f q hf => ⟨congrArg render, fun hrender => ?_⟩⟩
    · rcases hp.parent?_cases with hnone | ⟨q, hq, hcanonical, hrender⟩
      · exact .inl hnone
      · exact .inr ⟨q, hq, hcanonical.parse?_render, hrender⟩
    · have hq := (canonical_of_parse? hf).parse?_render
      rw [← hrender, hp.parse?_render] at hq
      exact Option.some.inj hq

/-- The name of a customer's company. -/
def companyName : Path := ⟨["customer", "company_name"]⟩

/-- Blanks around the segments, and the parent's text. -/
theorem parse?_canonical_of_companyName :
    parse? "  customer . company_name " = some companyName ∧ Canonical companyName ∧
      parse? "customer.company_name" = some companyName ∧
      parse? " customer" = some ⟨["customer"]⟩ ∧
      companyName.render ≠ (⟨["customer"]⟩ : Path).render := by
  have hspaced : parse? "  customer . company_name " = some companyName := by decide +kernel
  have hparent : parse? " customer" = some ⟨["customer"]⟩ := by decide +kernel
  obtain ⟨hcanonical, hrender, -, hsame⟩ := (parse?_canonical _).2 _ hspaced
  refine ⟨hspaced, hcanonical, hrender, hparent, fun heq => ?_⟩
  exact absurd ((hsame _ _ hparent).2 heq) (by decide)

end Path

end DataGrid
