import DataGrid.Text.Digits

/-!
# Blank characters and trimming

A blank is a character with the Unicode property `White_Space`. Every reader of
the library trims its text by this one class. The readers work on `List Char`;
`trimmed` is the same cut on a `String`.
-/

namespace DataGrid.Text

/-- The Unicode property `White_Space`. -/
def isBlank (c : Char) : Bool :=
  let n := c.toNat
  (0x9 ≤ n && n ≤ 0xD) || n == 0x20 || n == 0x85 || n == 0xA0 || n == 0x1680 ||
    (0x2000 ≤ n && n ≤ 0x200A) || n == 0x2028 || n == 0x2029 || n == 0x202F ||
    n == 0x205F || n == 0x3000

/-- The text from its first character that is not blank. -/
def trimStart (s : List Char) : List Char := s.dropWhile isBlank

/-- The text up to its last character that is not blank. -/
def trimEnd (s : List Char) : List Char := (s.reverse.dropWhile isBlank).reverse

/-- The text without the blanks at its two ends. -/
def trim (s : List Char) : List Char := trimEnd (trimStart s)

/-- `trim` on strings. -/
def trimmed (s : String) : String := String.ofList (trim s.toList)

/-- ASCII letters in lower case; every other character is kept. -/
def lowered (s : List Char) : List Char := s.map Char.toLower

theorem isBlank_of_isDigit {c : Char} (h : c.isDigit = true) : isBlank c = false := by
  have hc := isDigit_bounds h
  rw [Bool.eq_false_iff]
  simp only [isBlank, ne_eq, Bool.or_eq_true, Bool.and_eq_true, decide_eq_true_eq, beq_iff_eq]
  omega

theorem dropWhile_eq_self {p : Char → Bool} {s : List Char} (h : ∀ c ∈ s, p c = false) :
    s.dropWhile p = s := by
  cases s with
  | nil => rfl
  | cons c s => rw [List.dropWhile_cons, h c List.mem_cons_self]; rfl

/-- Nothing is lost with a character that is not there. -/
theorem filter_ne_of_not_mem {c : Char} {s : List Char} (h : c ∉ s) : s.filter (· ≠ c) = s := by
  refine List.filter_eq_self.2 fun d hd => decide_eq_true ?_
  rintro rfl
  exact h hd

theorem dropWhile_append_cons {p : Char → Bool} {c : Char} (hc : p c = false) (s t : List Char) :
    (s ++ c :: t).dropWhile p = s.dropWhile p ++ c :: t := by
  induction s with
  | nil => rw [List.nil_append, List.dropWhile_cons, hc]; rfl
  | cons d s ih =>
    rw [List.cons_append, List.dropWhile_cons, List.dropWhile_cons]
    cases p d with
    | true => exact ih
    | false => rfl

/-- A text on both sides of a character that is no blank is trimmed on each side alone. -/
theorem trim_append_cons {c : Char} (hc : isBlank c = false) (s t : List Char) :
    trim (s ++ c :: t) = trimStart s ++ c :: trimEnd t := by
  have hreverse : (trimStart s ++ c :: t).reverse = t.reverse ++ c :: (trimStart s).reverse := by
    simp
  have hstart : trimStart (s ++ c :: t) = trimStart s ++ c :: t := dropWhile_append_cons hc s t
  unfold trim
  rw [hstart]
  unfold trimEnd
  rw [hreverse, dropWhile_append_cons hc]
  simp

theorem trim_suffix_prefix (s : List Char) : trimStart s <:+ s ∧ trim s <+: trimStart s := by
  refine ⟨List.dropWhile_suffix isBlank, ?_⟩
  have hend := List.dropWhile_suffix isBlank (l := (trimStart s).reverse)
  rw [← List.reverse_prefix, List.reverse_reverse] at hend
  exact hend

/-- A text that trimming leaves as it is has no blank at either end. -/
theorem trimStart_trimEnd_of_trim {s : List Char} (h : trim s = s) :
    trimStart s = s ∧ trimEnd s = s := by
  obtain ⟨hsuffix, hprefix⟩ := trim_suffix_prefix s
  have hlength := hprefix.length_le
  rw [h] at hlength
  have hstart := hsuffix.eq_of_length_le hlength
  refine ⟨hstart, ?_⟩
  unfold trim at h
  rwa [hstart] at h

theorem trim_eq_self {s : List Char} (h : ∀ c ∈ s, isBlank c = false) : trim s = s := by
  have hreverse : ∀ c ∈ s.reverse, isBlank c = false := by
    intro c hc
    exact h c (List.mem_reverse.1 hc)
  unfold trim trimEnd trimStart
  rw [dropWhile_eq_self h, dropWhile_eq_self hreverse, List.reverse_reverse]

end DataGrid.Text
