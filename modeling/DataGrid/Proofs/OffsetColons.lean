import DataGrid.Proofs.OffsetTimes

/-!
# Colons in an offset

The reader of an offset drops every colon behind the sign before it counts the digits. So it takes
a sign with two digits for hours of at most 18 and two digits for minutes of at most 59, wherever
colons stand among them. The written forms are those with no colon but between hours and minutes.
-/

namespace DataGrid

open Text Number

namespace Calendar

variable {s rest : List Char} {sign : Char} {v : Int}

/-! ## Colons -/

/-- A text without its colons. -/
def withoutColons (s : List Char) : List Char := s.filter (· ≠ ':')

/-- A written offset: a sign, hours and minutes, between which a colon may stand, and the seconds
they stand for. -/
inductive WrittenOffset : (colon : Bool) → List Char → Int → Prop where
  | intro (east : Bool) (hours : Fin 19) (minutes : Fin 60) (colon : Bool) :
      WrittenOffset colon (OffsetText.signed east hours minutes colon).chars
        (OffsetText.signed east hours minutes colon).seconds

theorem readOffsetSeconds_of_written {colon : Bool} (h : WrittenOffset colon s v) :
    readOffsetSeconds s = some v := by
  cases h with
  | intro east hours minutes => exact readOffsetSeconds_chars east hours minutes colon

/-- Colons behind the sign count for nothing. -/
theorem readOffsetSeconds_withoutColons (sign : Char) (rest : List Char) :
    readOffsetSeconds (sign :: withoutColons rest) = readOffsetSeconds (sign :: rest) := by
  rw [readOffsetSeconds, readOffsetSeconds, withoutColons, List.filter_filter]
  simp only [Bool.and_self]

/-- Without its colons, what is read is a written offset. -/
theorem written_of_readOffsetSeconds (h : readOffsetSeconds (sign :: rest) = some v) :
    WrittenOffset false (sign :: withoutColons rest) v := by
  rw [readOffsetSeconds] at h
  split at h
  · rename_i a b c d hdigits
    split at h
    · rename_i hours minutes hhours hminutes
      have hpadded : paddedDigits 2 hours = [a, b] := paddedDigits_of_naturalOf? hhours
      have hpadded' : paddedDigits 2 minutes = [c, d] := paddedDigits_of_naturalOf? hminutes
      rw [show withoutColons rest = paddedDigits 2 hours ++ ([] ++ paddedDigits 2 minutes) by
        rw [hpadded, hpadded']
        exact hdigits]
      split at h
      · rename_i hlimits
        have hwritten := fun east => WrittenOffset.intro east ⟨hours, Nat.lt_succ_of_le hlimits.1⟩
          ⟨minutes, Nat.lt_succ_of_le hlimits.2⟩ false
        by_cases hplus : sign = '+'
        · rw [if_pos hplus] at h
          rw [hplus, ← Option.some.inj h]
          exact hwritten true
        · rw [if_neg hplus, Option.ite_none_right_eq_some] at h
          rw [h.1, ← Option.some.inj h.2]
          exact hwritten false
      · cases h
    · cases h
  · cases h

theorem readOffsetSeconds_iff_written :
    readOffsetSeconds (sign :: rest) = some v ↔
      WrittenOffset false (sign :: withoutColons rest) v := by
  refine ⟨written_of_readOffsetSeconds, fun h => ?_⟩
  rw [← readOffsetSeconds_withoutColons]
  exact readOffsetSeconds_of_written h

/-! ## The place of a colon -/

/-- Around the place of the colon stand a sign and two pairs of digits. -/
theorem exists_digits (east : Bool) (hours : Fin 19) (minutes : Fin 60) :
    ∃ sign a b digits, ':' ∉ [sign, a, b] ∧ ':' ∉ digits ∧ ∀ colon,
      (OffsetText.signed east hours minutes colon).chars =
        sign :: a :: b :: ((if colon then [':'] else []) ++ digits) := by
  obtain ⟨a, b, hab⟩ := exists_paddedDigits_two (show hours.val < 100 by omega)
  have hdigits : ∀ n, ':' ∉ paddedDigits 2 n :=
    fun n => (digitRun_paddedDigits 2 n).not_mem (by decide)
  refine ⟨if east then '+' else '-', a, b, paddedDigits 2 minutes, ?_, hdigits minutes,
    fun colon => ?_⟩
  · rw [← hab, List.mem_cons, not_or]
    exact ⟨by cases east <;> decide, hdigits hours⟩
  · rw [OffsetText.chars, hab]
    rfl

/-- A written offset has no colon at another place than behind the hours. -/
theorem WrittenOffset.not_mem_eraseIdx {colon : Bool} (h : WrittenOffset colon s v) :
    ':' ∉ s.eraseIdx 3 := by
  cases h with
  | intro east hours minutes =>
    obtain ⟨sign, a, b, digits, hfront, hdigits, hchars⟩ := exists_digits east hours minutes
    have herased : (OffsetText.signed east hours minutes colon).chars.eraseIdx 3 =
        [sign, a, b] ++ if colon then digits else digits.eraseIdx 0 := by
      rw [hchars]
      cases colon <;> rfl
    rw [herased, List.mem_append, not_or]
    refine ⟨hfront, fun hmem => hdigits ?_⟩
    cases colon with
    | true => exact hmem
    | false => exact List.mem_of_mem_eraseIdx hmem

/-- Behind the hours a colon may stand. -/
theorem WrittenOffset.insert_colon {a b : Char} {after : List Char}
    (h : WrittenOffset false (sign :: a :: b :: after) v) :
    WrittenOffset true (sign :: a :: b :: ':' :: after) v := by
  generalize hs : sign :: a :: b :: after = s at h
  cases h with
  | intro east hours minutes =>
    obtain ⟨sign', a', b', digits, -, -, hchars⟩ := exists_digits east hours minutes
    have hwritten := WrittenOffset.intro east hours minutes true
    rw [hchars] at hs hwritten
    obtain ⟨rfl, htail⟩ := List.cons.inj hs
    obtain ⟨rfl, hafter⟩ := List.cons.inj htail
    obtain ⟨rfl, rfl⟩ := List.cons.inj hafter
    exact hwritten

/-- With no colon at another place than behind two characters, either there is none at all, or one
colon cuts the text there. -/
theorem withoutColons_cases (h : ':' ∉ rest.eraseIdx 2) : withoutColons rest = rest ∨
    ∃ a b after, rest = a :: b :: ':' :: after ∧ withoutColons rest = a :: b :: after := by
  match rest, h with
  | [], h | [_], h | [_, _], h => exact .inl (filter_ne_of_not_mem h)
  | a :: b :: c :: after, h =>
    have hother : withoutColons (a :: b :: after) = a :: b :: after :=
      filter_ne_of_not_mem h
    by_cases hc : c = ':'
    · refine .inr ⟨a, b, after, by rw [hc], ?_⟩
      have hdrop : withoutColons (a :: b :: c :: after) = withoutColons (a :: b :: after) := by
        rw [hc]
        simp [withoutColons, List.filter_cons]
      rw [hdrop, hother]
    · refine .inl (filter_ne_of_not_mem fun hmem => h ?_)
      simp only [List.mem_cons, Ne.symm hc, false_or] at hmem
      simpa only [List.eraseIdx_cons_succ, List.eraseIdx_cons_zero, List.mem_cons] using hmem

/-- The written offsets are the texts that are read and have no colon at another place than behind
the hours. -/
theorem exists_written_iff : (∃ colon, WrittenOffset colon s v) ↔
    readOffsetSeconds s = some v ∧ ':' ∉ s.eraseIdx 3 := by
  constructor
  · rintro ⟨colon, h⟩
    exact ⟨readOffsetSeconds_of_written h, h.not_mem_eraseIdx⟩
  · rintro ⟨h, hcolon⟩
    cases s with
    | nil => cases h
    | cons sign rest =>
      rw [List.eraseIdx_cons_succ, List.mem_cons, not_or] at hcolon
      have hwritten := written_of_readOffsetSeconds h
      rcases withoutColons_cases hcolon.2 with hsame | ⟨a, b, after, rfl, hsame⟩
      · rw [hsame] at hwritten
        exact ⟨false, hwritten⟩
      · rw [hsame] at hwritten
        exact ⟨true, hwritten.insert_colon⟩

/-- **Which offsets are read.** A text is read as an offset exactly if it does not begin with a
colon and, without its colons, is a sign with two digits for hours of at most 18 and two digits for
minutes of at most 59; it has the seconds of that offset. The forms in which an offset is written,
these and those with a colon behind the hours, are exactly the texts that are read and have no colon
at another place. -/
theorem readOffsetSeconds_eq_some_iff (s : List Char) (v : Int) :
    (readOffsetSeconds s = some v ↔
      s.head? ≠ some ':' ∧ WrittenOffset false (withoutColons s) v) ∧
    ((∃ colon, WrittenOffset colon s v) ↔
      readOffsetSeconds s = some v ∧ ':' ∉ s.eraseIdx 3) := by
  refine ⟨?_, exists_written_iff⟩
  cases s with
  | nil =>
    refine iff_of_false (fun h => by cases h) fun h => ?_
    cases readOffsetSeconds_of_written h.2
  | cons sign rest =>
    have hfirst : WrittenOffset false (sign :: withoutColons rest) v → sign ≠ ':' :=
      fun h hsign => h.not_mem_eraseIdx (hsign ▸ List.mem_cons_self)
    have hcons : sign ≠ ':' → withoutColons (sign :: rest) = sign :: withoutColons rest :=
      fun hsign => List.filter_cons_of_pos (decide_eq_true hsign)
    rw [readOffsetSeconds_iff_written, List.head?_cons, ne_eq, Option.some_inj]
    constructor
    · intro h
      exact ⟨hfirst h, (hcons (hfirst h)).symm ▸ h⟩
    · rintro ⟨hsign, h⟩
      rwa [hcons hsign] at h

/-- A colon between the two digits of the hours. -/
theorem not_readOffsetSeconds_iff_written : ¬ ∀ (s : List Char) (v : Int),
    readOffsetSeconds s = some v ↔ ∃ colon, WrittenOffset colon s v := by
  intro h
  have hread : readOffsetSeconds "+0:100".toList = some 3600 := by decide +kernel
  obtain ⟨colon, hwritten⟩ := (h _ _).1 hread
  exact absurd hwritten.not_mem_eraseIdx (by decide +kernel)

end Calendar

end DataGrid
