import DataGrid.Proofs.PatternGrammar

/-!
# Grouped digits

The whole part of a numeral is cut into groups of three digits, counted from the point, with a comma
between two groups. Its sign and what stands behind the whole part are left as they are. Which
digits have a comma in front of them follows from the recursion, which meets the digits from the
left and decides by the number of digits to come.
-/

namespace DataGrid

open Number Text

namespace Directive

variable {s before after : List Char} {c d : Char}

/-! ## Groups of three -/

/-- What stands between a digit and the digits behind it. -/
def comma (rest : List Char) : List Char := if rest ≠ [] ∧ 3 ∣ rest.length then [','] else []

theorem comma_eq_iff (rest : List Char) : comma rest = [','] ↔ rest ≠ [] ∧ 3 ∣ rest.length := by
  rw [comma]
  split
  · exact iff_of_true rfl ‹_›
  · exact iff_of_false (List.cons_ne_nil _ _).symm ‹_›

theorem comma_cases (rest : List Char) : comma rest = [] ∨ comma rest = [','] := by
  rw [comma]
  split
  · exact .inr rfl
  · exact .inl rfl

theorem getLast?_cons_comma (hc : c.isDigit = true) (rest : List Char) :
    (c :: comma rest).getLast? = some ',' ↔ rest ≠ [] ∧ 3 ∣ rest.length := by
  rw [← comma_eq_iff]
  rcases comma_cases rest with hrest | hrest
  · rw [hrest]
    refine iff_of_false (fun h => ?_) (by decide)
    obtain rfl : c = ',' := Option.some.inj h
    exact absurd hc (by decide)
  · rw [hrest]
    exact iff_of_true rfl rfl

theorem groupDigits_cons (c : Char) (rest : List Char) :
    groupDigits (c :: rest) = c :: comma rest ++ groupDigits rest := by
  have hiff : rest.length % 3 = 0 ∧ (!rest.isEmpty) = true ↔ rest ≠ [] ∧ 3 ∣ rest.length := by
    rw [and_comm, Nat.dvd_iff_mod_eq_zero, Bool.not_eq_true', List.isEmpty_eq_false_iff]
  rw [groupDigits, comma]
  simp only [hiff]
  split <;> rfl

theorem head?_groupDigits (s : List Char) : (groupDigits s).head? = s.head? := by
  cases s with
  | nil => rfl
  | cons c rest =>
    rw [groupDigits_cons]
    rfl

/-- Grouping adds commas only. -/
theorem filter_groupDigits {p : Char → Bool} (hp : p ',' = false) (s : List Char) :
    (groupDigits s).filter p = s.filter p := by
  have hcomma : ∀ rest, (comma rest).filter p = [] := by
    intro rest
    rcases comma_cases rest with hrest | hrest
    · rw [hrest, List.filter_nil]
    · rw [hrest, List.filter_cons_of_neg (by rw [hp]; decide), List.filter_nil]
  induction s with
  | nil => rfl
  | cons c s ih =>
    have hcons : ∀ t, (c :: t).filter p = [c].filter p ++ t.filter p :=
      fun t => List.filter_append [c] t
    rw [groupDigits_cons, List.cons_append, hcons, hcons s, List.filter_append, hcomma, ih,
      List.nil_append]

theorem countP_groupDigits (hs : ∀ c ∈ s, c.isDigit = true) :
    (groupDigits s).countP Char.isDigit = s.length := by
  rw [List.countP_eq_length_filter, filter_groupDigits (by decide), List.filter_eq_self.2 hs]

/-- A character of the grouped digits is the first digit, or the comma behind it, or it stands in
the grouped rest. -/
theorem groupDigits_split {x : Char} (h : groupDigits (c :: s) = before ++ x :: after) :
    before = [] ∧ x = c ∨
      before = [c] ∧ x = ',' ∧ comma s = [','] ∧ after = groupDigits s ∨
      ∃ front, before = c :: comma s ++ front ∧ groupDigits s = front ++ x :: after := by
  rw [groupDigits_cons] at h
  cases before with
  | nil => exact .inl ⟨rfl, (List.cons.inj h).1.symm⟩
  | cons b before =>
    obtain ⟨rfl, htail⟩ := List.cons.inj h
    rcases comma_cases s with hcomma | hcomma
    · rw [hcomma] at htail ⊢
      exact .inr (.inr ⟨before, rfl, htail⟩)
    · rw [hcomma] at htail ⊢
      cases before with
      | nil =>
        obtain ⟨rfl, rfl⟩ := List.cons.inj htail
        exact .inr (.inl ⟨rfl, rfl, rfl, rfl⟩)
      | cons e front =>
        obtain ⟨rfl, hrest⟩ := List.cons.inj htail
        exact .inr (.inr ⟨front, rfl, hrest⟩)

/-! ## Where commas stand -/

/-- A comma stands between two digits. -/
theorem digits_around_comma (hs : ∀ c ∈ s, c.isDigit = true)
    (h : groupDigits s = before ++ ',' :: after) :
    (∃ c, before.getLast? = some c ∧ c.isDigit = true) ∧
      ∃ c, after.head? = some c ∧ c.isDigit = true := by
  induction s generalizing before with
  | nil => exact absurd h.symm (List.append_ne_nil_of_right_ne_nil before (List.cons_ne_nil _ _))
  | cons c s ih =>
    rw [List.forall_mem_cons] at hs
    rcases groupDigits_split h with ⟨-, rfl⟩ | ⟨rfl, -, hcomma, rfl⟩ | ⟨front, rfl, hrest⟩
    · exact absurd hs.1 (by decide)
    · refine ⟨⟨c, rfl, hs.1⟩, ?_⟩
      obtain ⟨d, rest, rfl⟩ := List.exists_cons_of_ne_nil ((comma_eq_iff s).1 hcomma).1
      exact ⟨d, head?_groupDigits _, hs.2 d List.mem_cons_self⟩
    · obtain ⟨⟨d, hlast, hd⟩, hafter⟩ := ih hs.2 hrest
      refine ⟨⟨d, ?_, hd⟩, hafter⟩
      rw [List.getLast?_append, hlast, Option.some_or]

/-- A digit that is not the first one has a comma in front of it exactly if the number of digits
from it on is a multiple of three. -/
theorem comma_before_digit (hs : ∀ c ∈ s, c.isDigit = true) (hd : d.isDigit = true)
    (h : groupDigits s = before ++ d :: after) :
    before.getLast? = some ',' ↔ before ≠ [] ∧ 3 ∣ (d :: after).countP Char.isDigit := by
  induction s generalizing before with
  | nil => exact absurd h.symm (List.append_ne_nil_of_right_ne_nil before (List.cons_ne_nil _ _))
  | cons c s ih =>
    rw [List.forall_mem_cons] at hs
    rcases groupDigits_split h with ⟨rfl, -⟩ | ⟨-, rfl, -⟩ | ⟨front, rfl, hrest⟩
    · exact iff_of_false (fun hlast => by cases hlast) fun hne => hne.1 rfl
    · exact absurd hd (by decide)
    · cases front with
      | nil =>
        -- The digit is the first one of the grouped rest.
        have hcount : (d :: after).countP Char.isDigit = s.length := by
          rw [← countP_groupDigits hs.2, hrest, List.nil_append]
        have hne : s ≠ [] := by
          rintro rfl
          cases hrest
        rw [List.append_nil, getLast?_cons_comma hs.1, hcount]
        exact and_congr_left fun _ => iff_of_true hne (List.cons_ne_nil _ _)
      | cons e front =>
        have hlast : (c :: comma s ++ e :: front).getLast? = (e :: front).getLast? := by
          rw [List.getLast?_append, List.getLast?_cons, Option.some_or]
        rw [hlast, ih hs.2 hrest]
        exact and_congr_left fun _ => iff_of_true (List.cons_ne_nil _ _) (List.cons_ne_nil _ _)

/-! ## Numerals -/

theorem group_of_not_mem (h : '-' ∉ s) :
    group s = groupDigits (s.takeWhile (· ≠ '.')) ++ s.dropWhile (· ≠ '.') := by
  unfold group
  split
  rename_i heq
  split at heq
  · exact absurd List.mem_cons_self h
  · cases heq
    rfl

theorem group_minus (s : List Char) (h : '-' ∉ s) : group ('-' :: s) = '-' :: group s := by
  rw [group_of_not_mem h]
  rfl

/-- A numeral: an optional minus sign, one or more digits, and the digits behind a point, if there
is one. -/
structure NumeralText where
  negative : Bool
  whole : List Char
  run : DigitRun whole
  places : Option (List Char)
  digits : ∀ t ∈ places, ∀ c ∈ t, c.isDigit = true

namespace NumeralText

variable (b : NumeralText)

def sign : List Char := if b.negative then ['-'] else []

/-- The point and the digits behind it. -/
def fraction : List Char := b.places.elim [] ('.' :: ·)

def chars : List Char := b.sign ++ b.whole ++ b.fraction

/-- Behind the sign stand digits and a point. -/
theorem mem_unsigned {c : Char} (h : c ∈ b.whole ++ b.fraction) : c.isDigit = true ∨ c = '.' := by
  rcases List.mem_append.1 h with hwhole | hfraction
  · exact .inl (b.run.digits c hwhole)
  · rw [fraction] at hfraction
    cases hplaces : b.places with
    | none =>
      rw [hplaces] at hfraction
      cases hfraction
    | some t =>
      rw [hplaces] at hfraction
      exact (List.mem_cons.1 hfraction).symm.imp_left (b.digits t hplaces c)

theorem not_mem_unsigned {c : Char} (hc : c.isDigit = false) (hpoint : c ≠ '.') :
    c ∉ b.whole ++ b.fraction := by
  intro hmem
  rcases b.mem_unsigned hmem with hdigit | heq
  · rw [hc] at hdigit
    cases hdigit
  · exact hpoint heq

theorem not_mem_chars {c : Char} (hc : c.isDigit = false) (hpoint : c ≠ '.') (hsign : c ≠ '-') :
    c ∉ b.chars := by
  rw [chars, sign, List.append_assoc, List.mem_append, not_or]
  refine ⟨fun hmem => ?_, b.not_mem_unsigned hc hpoint⟩
  cases hnegative : b.negative with
  | false =>
    rw [hnegative] at hmem
    cases hmem
  | true =>
    rw [hnegative] at hmem
    exact hsign (List.mem_singleton.1 hmem)

/-- Grouping keeps the sign and what stands behind the whole part. -/
theorem group_chars : group b.chars = b.sign ++ groupDigits b.whole ++ b.fraction := by
  have hminus : '-' ∉ b.whole ++ b.fraction := b.not_mem_unsigned (by decide) (by decide)
  have hwhole : ∀ c ∈ b.whole, decide (c ≠ '.') = true := by
    intro c hc
    rw [decide_eq_true_eq]
    rintro rfl
    exact absurd (b.run.digits '.' hc) (by decide)
  have hfraction : ∀ c ∈ b.fraction.head?, decide (c ≠ '.') = false := by
    intro c hc
    rw [fraction] at hc
    cases hplaces : b.places with
    | none =>
      rw [hplaces] at hc
      cases hc
    | some t =>
      rw [hplaces] at hc
      obtain rfl : '.' = c := Option.some.inj hc
      decide
  obtain ⟨htake, hdrop⟩ := takeWhile_dropWhile_append hwhole hfraction
  have hunsigned : group (b.whole ++ b.fraction) = groupDigits b.whole ++ b.fraction := by
    rw [group_of_not_mem hminus, htake, hdrop]
  rw [chars, sign, List.append_assoc, List.append_assoc]
  cases b.negative with
  | false => exact hunsigned
  | true => exact (group_minus _ hminus).trans (congrArg ('-' :: ·) hunsigned)

end NumeralText

/-- **Commas stand in front of every third digit.** Grouping a numeral keeps its sign and what
stands behind its whole part, and the whole part and the numeral are what is left without the
commas. In the grouped whole part a digit has a comma in front of it exactly if it is not the first
one and the number of digits from it to the point is a multiple of three. Every comma stands between
two digits, so none is the first or the last character of the whole part, and no two meet. -/
theorem group_separated (b : NumeralText) : ∃ whole,
    group b.chars = b.sign ++ whole ++ b.fraction ∧
    whole.filter (· ≠ ',') = b.whole ∧ (group b.chars).filter (· ≠ ',') = b.chars ∧
    (∀ before d after, whole = before ++ d :: after → d.isDigit = true →
      (before.getLast? = some ',' ↔ before ≠ [] ∧ 3 ∣ (d :: after).countP Char.isDigit)) ∧
    ∀ before after, whole = before ++ ',' :: after →
      (∃ c, before.getLast? = some c ∧ c.isDigit = true) ∧
        ∃ c, after.head? = some c ∧ c.isDigit = true := by
  have hnone : ',' ∉ b.chars := b.not_mem_chars (by decide) (by decide) (by decide)
  have hgroup := filter_groupDigits (p := (· ≠ ',')) (by decide) b.whole
  refine ⟨groupDigits b.whole, b.group_chars, ?_, ?_, ?_, ?_⟩
  · rw [hgroup]
    exact filter_ne_of_not_mem (b.run.not_mem (by decide))
  · rw [b.group_chars, List.filter_append, List.filter_append, hgroup, ← List.filter_append,
      ← List.filter_append]
    exact filter_ne_of_not_mem hnone
  · exact fun before d after h hd => comma_before_digit b.run.digits hd h
  · exact fun before after h => digits_around_comma b.run.digits h

/-- The numeral -1234567.89. -/
def owedMillions : NumeralText where
  negative := true
  whole := ['1', '2', '3', '4', '5', '6', '7']
  run := ⟨by decide, List.all_eq_true.1 (by decide)⟩
  places := some ['8', '9']
  digits t ht := by
    obtain rfl : ['8', '9'] = t := Option.some.inj ht
    exact List.all_eq_true.1 (by decide)

/-- Two commas, neither of them behind the sign or in front of the point. -/
theorem group_separated_of_owedMillions :
    group owedMillions.chars = "-1,234,567.89".toList ∧
      '2'.isDigit = true ∧ 3 ∣ "234,567".toList.countP Char.isDigit ∧
      ∃ c, "1".toList.getLast? = some c ∧ c.isDigit = true := by
  have hgroup : group owedMillions.chars = "-1,234,567.89".toList := by decide +kernel
  have hdigit : '2'.isDigit = true := by decide
  obtain ⟨whole, hparts, -, -, hbefore, haround⟩ := group_separated owedMillions
  have hwhole : whole = "1,234,567".toList := by
    rw [hgroup] at hparts
    exact List.append_cancel_right (List.cons.inj hparts).2.symm
  subst hwhole
  refine ⟨hgroup, hdigit, ?_, ?_⟩
  · exact ((hbefore "1,".toList '2' "34,567".toList rfl hdigit).1 rfl).2
  · exact (haround "1".toList "234,567".toList rfl).1

end Directive

end DataGrid
