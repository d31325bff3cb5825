import DataGrid.Proofs.DecimalNumerals
import DataGrid.Proofs.GroupedDigits
import DataGrid.Total

/-!
# Rendered numbers

A number is written in full by default, and in a directive as a whole number or with a number of
places. Commas and fill characters are all that grouping and a width add to the numeral: without
them it denotes the number, and with places behind the point the nearest number with so many.
Zeros that fill the width stand behind the sign, where they do not change the value.
-/

namespace DataGrid

open Number Decimal Text

namespace Directive

/-- A text without its spaces and commas. -/
def bare (s : List Char) : List Char := s.filter fun c => c ≠ ' ' ∧ c ≠ ','

/-- No digit stands in front of a minus sign. -/
def MinusFirst (s : List Char) : Prop := s.Pairwise fun c d => d = '-' → c.isDigit = false

/-- A numeral that may hold commas. -/
inductive Grouped : List Char → Nat → Int → Prop where
  | plain {s : List Char} {places n : Nat} (h : Unsigned (bare s) places n) (hs : '-' ∉ s) :
      Grouped s places n
  | minus {s : List Char} {places n : Nat} (h : Unsigned (bare s) places n) (hs : '-' ∉ s) :
      Grouped ('-' :: s) places (-n)

variable {s body text : List Char} {places n : Nat} {k : Int} {x : Decimal} {d : Directive}

/-! ## Spaces and commas -/

theorem bare_append (s t : List Char) : bare (s ++ t) = bare s ++ bare t := List.filter_append ..

theorem bare_replicate_space (count : Nat) : bare (List.replicate count ' ') = [] := by
  simp [bare]

theorem bare_padStart_zero (width : Nat) (s : List Char) :
    bare (padStart '0' width s) = List.replicate (width - s.length) '0' ++ bare s := by
  simp [bare, padStart]

theorem bare_padStart_space (width : Nat) (s : List Char) :
    bare (padStart ' ' width s) = bare s := by
  rw [padStart, bare_append, bare_replicate_space, List.nil_append]

theorem bare_padEnd_space (width : Nat) (s : List Char) : bare (padEnd ' ' width s) = bare s := by
  rw [padEnd, bare_append, bare_replicate_space, List.append_nil]

theorem bare_unsigned (h : Unsigned s places n) : bare s = s := by
  have hspace := h.not_mem (c := ' ') (by decide) (by decide)
  have hcomma := h.not_mem (c := ',') (by decide) (by decide)
  refine List.filter_eq_self.2 fun c hc => ?_
  rw [decide_eq_true_eq]
  exact ⟨fun heq => hspace (heq ▸ hc), fun heq => hcomma (heq ▸ hc)⟩

/-! ## Groups -/

theorem bare_groupDigits (s : List Char) : bare (groupDigits s) = bare s :=
  filter_groupDigits (by decide) s

theorem mem_of_mem_groupDigits {c : Char} (h : c ∈ groupDigits s) : c ∈ s ∨ c = ',' := by
  by_cases hc : c = ','
  · exact .inr hc
  · have hmem : c ∈ (groupDigits s).filter (· ≠ ',') :=
      List.mem_filter.2 ⟨h, decide_eq_true hc⟩
    rw [filter_groupDigits (by decide)] at hmem
    exact .inl (List.mem_of_mem_filter hmem)

theorem bare_group (h : '-' ∉ s) : bare (group s) = bare s := by
  rw [group_of_not_mem h, bare_append, bare_groupDigits, ← bare_append,
    List.takeWhile_append_dropWhile]

theorem not_mem_group (h : '-' ∉ s) : '-' ∉ group s := by
  rw [group_of_not_mem h, List.mem_append, not_or]
  refine ⟨fun hmem => ?_, fun hmem => h ((List.dropWhile_suffix _).subset hmem)⟩
  rcases mem_of_mem_groupDigits hmem with hmem | hcomma
  · exact h ((List.takeWhile_prefix _).subset hmem)
  · exact absurd hcomma (by decide)

/-- Grouping keeps the numeral. -/
theorem grouped_of_numeral (h : Numeral s places k) (grouped : Bool) :
    Grouped (if grouped then group s else s) places k := by
  cases h with
  | @plain _ _ n h =>
    have hs := h.not_mem (c := '-') (by decide) (by decide)
    have hbare := bare_unsigned h
    cases grouped with
    | false => exact .plain (hbare.symm ▸ h) hs
    | true =>
      rw [if_pos rfl]
      exact .plain (by rwa [bare_group hs, hbare]) (not_mem_group hs)
  | @minus s _ n h =>
    have hs := h.not_mem (c := '-') (by decide) (by decide)
    have hbare := bare_unsigned h
    cases grouped with
    | false => exact .minus (hbare.symm ▸ h) hs
    | true =>
      rw [if_pos rfl, group_minus s hs]
      exact .minus (by rwa [bare_group hs, hbare]) (not_mem_group hs)

/-! ## Padding -/

theorem length_pad (d : Directive) (body : List Char) :
    (d.pad body).length = max d.width body.length := by
  unfold pad
  split
  · exact length_padEnd ..
  · split
    · split
      · rw [List.length_cons, List.length_cons, length_padStart]
        omega
      · exact length_padStart ..
    · exact length_padStart ..

theorem pad_of_not_mem (hnumber : d.conversion ≠ .text) (h : '-' ∉ body) : d.pad body =
    if d.left then padEnd ' ' d.width body
    else if d.zeros then padStart '0' d.width body
    else padStart ' ' d.width body := by
  simp only [pad, hnumber, ne_eq, not_false_eq_true, and_true]
  split
  · rfl
  · split
    · split
      · exact absurd List.mem_cons_self h
      · rfl
    · rfl

theorem pad_minus (hnumber : d.conversion ≠ .text) (s : List Char) : d.pad ('-' :: s) =
    if d.left then padEnd ' ' d.width ('-' :: s)
    else if d.zeros then '-' :: padStart '0' (d.width - 1) s
    else padStart ' ' d.width ('-' :: s) := by
  simp only [pad, hnumber, ne_eq, not_false_eq_true, and_true]

/-- Fill characters keep the numeral. -/
theorem Grouped.numeral_pad (h : Grouped body places k) (hnumber : d.conversion ≠ .text) :
    Numeral (bare (d.pad body)) places k := by
  cases h with
  | plain h hs =>
    rw [pad_of_not_mem hnumber hs]
    split
    · rw [bare_padEnd_space]
      exact .plain h
    · split
      · rw [bare_padStart_zero]
        exact .plain (h.zeros _)
      · rw [bare_padStart_space]
        exact .plain h
  | @minus s _ n h hs =>
    rw [pad_minus hnumber]
    split
    · rw [bare_padEnd_space]
      exact .minus h
    · split
      · have hzeros := h.zeros (d.width - 1 - s.length)
        rw [← bare_padStart_zero] at hzeros
        exact .minus hzeros
      · rw [bare_padStart_space]
        exact .minus h

theorem not_mem_padStart {fill : Char} (hfill : '-' ≠ fill) (width : Nat) (h : '-' ∉ s) :
    '-' ∉ padStart fill width s := by
  rw [padStart, List.mem_append, not_or]
  exact ⟨fun hmem => hfill (List.eq_of_mem_replicate hmem), h⟩

theorem not_mem_padEnd {fill : Char} (hfill : '-' ≠ fill) (width : Nat) (h : '-' ∉ s) :
    '-' ∉ padEnd fill width s := by
  rw [padEnd, List.mem_append, not_or]
  exact ⟨h, fun hmem => hfill (List.eq_of_mem_replicate hmem)⟩

theorem minusFirst_of_not_mem (h : '-' ∉ s) : MinusFirst s :=
  List.pairwise_of_forall_mem_list fun _ _ _ hd heq => absurd (heq ▸ hd) h

theorem minusFirst_append {s t : List Char} (hs : ∀ c ∈ s, c = ' ') (ht : '-' ∉ t) :
    MinusFirst (s ++ '-' :: t) := by
  have hspace : ∀ c ∈ s, c.isDigit = false := by
    intro c hc
    rw [hs c hc]
    decide
  refine List.pairwise_append.2 ⟨?_, ?_, fun c hc _ _ _ => hspace c hc⟩
  · exact List.pairwise_of_forall_mem_list fun c hc _ _ _ => hspace c hc
  · exact List.pairwise_cons.2
      ⟨fun _ hd heq => absurd (heq ▸ hd) ht, minusFirst_of_not_mem ht⟩

/-- The sign stays in front of the digits. -/
theorem Grouped.minusFirst_pad (h : Grouped body places k) (hnumber : d.conversion ≠ .text) :
    MinusFirst (d.pad body) := by
  -- Zeros go behind the sign; the other fill characters are no digits.
  cases h with
  | plain h hs =>
    rw [pad_of_not_mem hnumber hs]
    split
    · exact minusFirst_of_not_mem (not_mem_padEnd (by decide) _ hs)
    · split
      · exact minusFirst_of_not_mem (not_mem_padStart (by decide) _ hs)
      · exact minusFirst_of_not_mem (not_mem_padStart (by decide) _ hs)
  | @minus s _ n h hs =>
    have hnone : ∀ c ∈ ([] : List Char), c = ' ' := by simp
    rw [pad_minus hnumber]
    split
    · have hrest : '-' ∉ s ++ List.replicate (d.width - ('-' :: s).length) ' ' := by
        rw [List.mem_append, not_or]
        exact ⟨hs, fun hmem => absurd (List.eq_of_mem_replicate hmem) (by decide)⟩
      exact minusFirst_append hnone hrest
    · split
      · exact minusFirst_append hnone (not_mem_padStart (by decide) _ hs)
      · exact minusFirst_append (fun c => List.eq_of_mem_replicate) hs

/-! ## Conversions -/

theorem numeral_truncate (h : x.isIntegral = true) :
    ∃ k : Int, Numeral x.truncate.normalize.chars 0 k ∧ x.toRat = k := by
  have hscale : x.truncate.normalize.scale = 0 := by
    unfold Decimal.normalize
    split <;> rfl
  have hnumeral := numeral_chars x.truncate.normalize
  have hvalue : x.toRat = x.truncate.normalize.signed := by
    rw [← toRat_truncate h, ← toRat_normalize, toRat, hscale]
    exact div_one _
  exact ⟨_, hscale ▸ hnumeral, hvalue⟩

/-- A whole number is written as it is. -/
theorem convert?_whole {m : Modifiers}
    (h : (m.directive .whole).convert? (.number x) = some body) :
    ∃ k : Int, Grouped body 0 k ∧ x.toRat = k := by
  unfold convert? at h
  by_cases hwhole : x.isIntegral = true ∧ (m.directive .whole).precision = none
  · obtain ⟨k, hnumeral, hvalue⟩ := numeral_truncate hwhole.1
    have hbody := Option.some.inj ((if_pos hwhole).symm.trans h)
    exact ⟨k, hbody ▸ grouped_of_numeral hnumeral _, hvalue⟩
  · exact absurd ((if_neg hwhole).symm.trans h) (Option.some_ne_none body).symm

theorem fixed?_eq_some (h : fixed? x places = some s) :
    ∃ k : Int, Numeral s places k ∧ Nearest (x.toRat * tenTo places) k := by
  unfold fixed? at h
  split at h
  · rename_i hplaces
    simp only at h
    split at h
    · rename_i hscale
      cases h
      have hnumeral := numeral_chars (x.rescale places hplaces)
      rw [hscale] at hnumeral
      exact ⟨_, hnumeral, nearest_rescale x hplaces hscale⟩
    · cases h
  · cases h

/-- With places behind the point, the nearest number is written. -/
theorem convert?_fixed {m : Modifiers}
    (h : (m.directive .fixed).convert? (.number x) = some body) :
    ∃ k : Int, Grouped body (m.precision.elim 6 runValue) k ∧
      Nearest (x.toRat * tenTo (m.precision.elim 6 runValue)) k := by
  have hprecision : (m.directive .fixed).precision.getD 6 = m.precision.elim 6 runValue := by
    unfold Modifiers.directive
    cases m.precision <;> rfl
  obtain ⟨s, hfixed, rfl⟩ := Option.map_eq_some_iff.1 h
  rw [hprecision] at hfixed
  obtain ⟨k, hnumeral, hnearest⟩ := fixed?_eq_some hfixed
  exact ⟨k, grouped_of_numeral hnumeral _, hnearest⟩

/-! ## The width -/

/-- The modifiers without their width. -/
def Modifiers.unpadded (m : Modifiers) : Modifiers := { m with width := [] }

theorem pad_unpadded (m : Modifiers) (conversion : Conversion) (body : List Char) :
    (m.unpadded.directive conversion).pad body = body := by
  have hstart : ∀ fill s, padStart fill 0 s = s := by
    intro fill s
    rw [padStart, Nat.zero_sub]
    rfl
  have hend : padEnd ' ' 0 body = body := by
    rw [padEnd, Nat.zero_sub]
    exact List.append_nil body
  have hwidth : (m.unpadded.directive conversion).width = 0 := rfl
  unfold pad
  simp only [hwidth, hstart, hend]
  split
  · rfl
  · split
    · split <;> rfl
    · rfl

/-- Without its width, a directive prints what it is padded from. -/
theorem format_unpadded {m : Modifiers} (hm : m.Spelled) {conversion : Conversion}
    (hread : m.Readable) (hplaces : (m.directive conversion).overprecise (.number x) = false)
    (hbody : (m.directive conversion).convert? (.number x) = some body) :
    format ('%' :: (m.unpadded.chars ++ [conversion.letter])) (.number x) = .ok body := by
  have hspelled : m.unpadded.Spelled := ⟨⟨hm.flags, by simp [Modifiers.unpadded], hm.precision⟩,
    by simp [Modifiers.unpadded]⟩
  refine (format_conversion_iff hspelled).2 ⟨⟨sized_nil, hread.precision⟩, ?_⟩
  refine write_eq_ok_iff.2 ⟨hplaces, body, hbody, ?_, pad_unpadded m conversion body⟩
  exact fun hsize => Nat.not_lt_zero _ hsize.1

/-- What a number prints in a directive. -/
structure Shows (m : Modifiers) (conversion : Conversion) (x : Decimal) (text : List Char)
    (places : Nat) (k : Int) : Prop where
  numeral : Numeral (bare text) places k
  minusFirst : MinusFirst text
  length : ∃ unpadded,
    format ('%' :: (m.unpadded.chars ++ [conversion.letter])) (.number x) = .ok unpadded ∧
      text.length = max (runValue m.width) unpadded.length

theorem Grouped.shows {m : Modifiers} (hm : m.Spelled) {conversion : Conversion}
    (hnumber : conversion ≠ .text) (hread : m.Readable)
    (hplaces : (m.directive conversion).overprecise (.number x) = false)
    (hbody : (m.directive conversion).convert? (.number x) = some body)
    (h : Grouped body places k) :
    Shows m conversion x ((m.directive conversion).pad body) places k where
  numeral := h.numeral_pad hnumber
  minusFirst := h.minusFirst_pad hnumber
  length := ⟨body, format_unpadded hm hread hplaces hbody, length_pad _ _⟩

/-- **Rendering a number does not change it.** The default text denotes the number exactly, and is
the same for numbers of one value. Without its spaces and commas, the text of a directive that
prints whole numbers denotes the number exactly; that of one with places behind the point, six if
the directive has no precision, has exactly so many and denotes the nearest number with them, a half
going away from zero. The text is as wide as the directive's width or else as the text without one,
and no digit stands in front of a minus sign. -/
theorem rendered_denotes (x : Decimal) :
    (∃ s places k, (Total.number x).text? = some (String.ofList s) ∧ Numeral s places k ∧
      x.toRat = k / tenTo places) ∧
    (∀ y : Decimal, (Total.number x).text? = (Total.number y).text? ↔ x.toRat = y.toRat) ∧
    ∀ m : Modifiers, m.Spelled → ∀ text,
      (format ('%' :: (m.chars ++ ['d'])) (.number x) = .ok text →
        ∃ k : Int, Shows m .whole x text 0 k ∧ x.toRat = k) ∧
      (format ('%' :: (m.chars ++ ['f'])) (.number x) = .ok text →
        ∃ k : Int, Shows m .fixed x text (m.precision.elim 6 runValue) k ∧
          Nearest (x.toRat * tenTo (m.precision.elim 6 runValue)) k) := by
  refine ⟨⟨_, _, _, rfl, numeral_chars x.normalize, (toRat_normalize x).symm⟩, fun y => ?_,
    fun m hm text => ⟨fun h => ?_, fun h => ?_⟩⟩
  · constructor
    · intro h
      have hchars := String.ofList_inj.1 (Option.some.inj h)
      rw [← toRat_normalize x, toRat_eq_of_chars hchars, toRat_normalize]
    · intro h
      exact congrArg (fun z => some z.text) (normalize_eq_of_toRat h)
  · have hform : format ('%' :: (m.chars ++ [Conversion.whole.letter])) (.number x) =
        .ok text := h
    obtain ⟨hread, hwrite⟩ := (format_conversion_iff hm).1 hform
    obtain ⟨hplaces, body, hbody, -, rfl⟩ := write_eq_ok_iff.1 hwrite
    obtain ⟨k, hgrouped, hvalue⟩ := convert?_whole hbody
    exact ⟨k, hgrouped.shows hm (by decide) hread hplaces hbody, hvalue⟩
  · have hform : format ('%' :: (m.chars ++ [Conversion.fixed.letter])) (.number x) =
        .ok text := h
    obtain ⟨hread, hwrite⟩ := (format_conversion_iff hm).1 hform
    obtain ⟨hplaces, body, hbody, -, rfl⟩ := write_eq_ok_iff.1 hwrite
    obtain ⟨k, hgrouped, hnearest⟩ := convert?_fixed hbody
    exact ⟨k, hgrouped.shows hm (by decide) hread hplaces hbody, hnearest⟩

/-- A width of twelve places behind a zero and a comma, and no place behind the point. -/
def twelveWhole : Modifiers := ⟨['0', ','], ['1', '2'], some ['0']⟩

/-- The number -1234.5. -/
def owed : Decimal := ⟨true, 12345000, 4, by decide, by decide⟩

/-- The number -1234. -/
def owedWhole : Decimal := ⟨true, 123400000, 5, by decide, by decide⟩

theorem numeral_rounded : Numeral (bare "-0000001,235".toList) 0 (-1235) := by
  have hrun : DigitRun "0000001235".toList := ⟨by decide, List.all_eq_true.1 (by decide)⟩
  exact .minus (.whole hrun)

/-- A tie that is rounded away from zero, filled with zeros and grouped, and a whole number with
zeros behind its point. -/
theorem rendered_denotes_of_owed :
    twelveWhole.Spelled ∧
      format "%0,12.0f".toList (.number owed) = .ok "-0000001,235".toList ∧
      Shows twelveWhole .fixed owed "-0000001,235".toList 0 (-1235) ∧
      Nearest (owed.toRat * tenTo 0) (-1235) ∧
      (⟨['-', ','], ['8'], none⟩ : Modifiers).Spelled ∧
      format "%-,8d".toList (.number owedWhole) = .ok "-1,234  ".toList ∧
      ∃ k : Int, Shows ⟨['-', ','], ['8'], none⟩ .whole owedWhole "-1,234  ".toList 0 k ∧
        owedWhole.toRat = k := by
  have hspelled : twelveWhole.Spelled :=
    ⟨formed_of_all (by decide) (by decide +kernel) (by decide +kernel), by decide⟩
  have hleft : (⟨['-', ','], ['8'], none⟩ : Modifiers).Spelled :=
    ⟨formed_of_all (by decide) (by decide +kernel) (by decide), by decide⟩
  have hfixed : format "%0,12.0f".toList (.number owed) = .ok "-0000001,235".toList := by
    decide +kernel
  have hwhole : format "%-,8d".toList (.number owedWhole) = .ok "-1,234  ".toList := by
    decide +kernel
  obtain ⟨k, hshows, hnearest⟩ := ((rendered_denotes owed).2.2 twelveWhole hspelled _).2 hfixed
  obtain ⟨-, rfl⟩ := hshows.numeral.unique numeral_rounded
  exact ⟨hspelled, hfixed, hshows, hnearest, hleft, hwhole,
    ((rendered_denotes owedWhole).2.2 _ hleft _).1 hwhole⟩

end Directive

end DataGrid
