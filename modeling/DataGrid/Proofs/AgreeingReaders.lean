import DataGrid.Proofs.DayNumbers
import DataGrid.Proofs.TemporalTexts
import DataGrid.Proofs.TrimmedText

/-!
# Texts that several temporal readers accept

Each temporal reader tries layouts and other readers in an order of its own, and still no text has
two meanings. The layouts are told apart by the marks that they use up: the text of a date has no
colon, that of a date and a time has one, and that of a moment with an offset has no bracket at
which a zone could be cut off.
-/

namespace DataGrid

open Text Number Calendar

namespace Calendar

/-! ## What a reader uses up -/

/-- Blanks, digits and some marks. -/
def Among (marks : List Char) (c : Char) : Prop :=
  isBlank c = true ∨ c.isDigit = true ∨ c ∈ marks

/-- `rest` is what follows some blanks, digits and marks at the head of `s`. -/
def Follows (marks : List Char) (s rest : List Char) : Prop :=
  ∃ used, s = used ++ rest ∧ ∀ c ∈ used, Among marks c

variable {marks s rest : List Char}

namespace Follows

theorem refl (marks s : List Char) : Follows marks s s := ⟨[], rfl, by simp⟩

theorem trans {middle : List Char} (h : Follows marks s middle) (h' : Follows marks middle rest) :
    Follows marks s rest := by
  obtain ⟨used, rfl, hused⟩ := h
  obtain ⟨more, rfl, hmore⟩ := h'
  exact ⟨used ++ more, (List.append_assoc used more rest).symm,
    List.forall_mem_append.2 ⟨hused, hmore⟩⟩

theorem cons {c : Char} (hc : Among marks c) (h : Follows marks s rest) :
    Follows marks (c :: s) rest := by
  obtain ⟨used, rfl, hused⟩ := h
  exact ⟨c :: used, rfl, List.forall_mem_cons.2 ⟨hc, hused⟩⟩

theorem mem {c : Char} (h : Follows marks s rest) (hc : c ∈ rest) : c ∈ s := by
  obtain ⟨used, rfl, -⟩ := h
  exact List.mem_append_right used hc

theorem forall_mem (h : Follows marks s []) : ∀ c ∈ s, Among marks c := by
  obtain ⟨used, rfl, hused⟩ := h
  rwa [List.append_nil]

/-- A character of another kind is not used up. -/
theorem not_mem {c : Char} (h : Follows marks s []) (hc : ¬ Among marks c) : c ∉ s :=
  fun hmem => hc (h.forall_mem c hmem)

theorem dropWhile {p : Char → Bool} (hp : ∀ c, p c = true → Among marks c) (s : List Char) :
    Follows marks s (s.dropWhile p) :=
  ⟨s.takeWhile p, List.takeWhile_append_dropWhile.symm,
    fun c hc => hp c (List.all_eq_true.1 List.all_takeWhile c hc)⟩

theorem digits (marks s : List Char) : Follows marks s (s.dropWhile Char.isDigit) :=
  .dropWhile (fun _ h => .inr (.inl h)) s

theorem blanks (marks s : List Char) : Follows marks s (trimStart s) :=
  .dropWhile (fun _ h => .inl h) s

end Follows

/-! ## Dates -/

theorem eq_cons_of_expect {c : Char} (h : expect c s = some rest) : s = c :: rest := by
  cases s with
  | nil => cases h
  | cons head s =>
    rw [expect] at h
    split at h
    · rename_i hhead
      rw [hhead, Option.some.inj h]
    · cases h

theorem follows_expect {c : Char} (hc : c ∈ marks) (h : expect c s = some rest) :
    Follows marks s rest := by
  rw [eq_cons_of_expect h]
  exact .cons (.inr (.inr hc)) (.refl marks rest)

theorem follows_spanDigits (marks : List Char) (limit : Nat) (s : List Char) :
    Follows marks s (spanDigits limit s).2 := by
  induction s generalizing limit with
  | nil => cases limit <;> exact .refl marks []
  | cons c s ih =>
    cases limit with
    | zero => exact .refl marks _
    | succ limit =>
      unfold spanDigits
      split
      · rename_i hc
        exact .cons (.inr (.inl hc)) (ih limit)
      · exact .refl marks _

theorem follows_takeDigits {width n : Nat} (h : takeDigits width s = some (n, rest)) :
    Follows marks s rest := by
  unfold takeDigits at h
  obtain ⟨_, -, hresult⟩ := Option.map_eq_some_iff.1 h
  cases hresult
  exact follows_spanDigits marks width s

theorem follows_takeNumber {n : Nat} (h : takeNumber s = some (n, rest)) : Follows marks s rest :=
  (Follows.blanks marks s).trans (follows_takeDigits h)

theorem follows_takeYear {year : Int} (hsigns : '-' ∈ marks ∧ '+' ∈ marks)
    (h : takeYear s = some (year, rest)) : Follows marks s rest := by
  have hblanks := Follows.blanks marks s
  unfold takeYear at h
  split at h
  · rename_i digits htrim
    obtain ⟨_, -, hresult⟩ := Option.map_eq_some_iff.1 h
    cases hresult
    rw [htrim] at hblanks
    exact hblanks.trans (.cons (.inr (.inr hsigns.1)) (.digits marks digits))
  · rename_i digits htrim
    obtain ⟨_, -, hresult⟩ := Option.map_eq_some_iff.1 h
    cases hresult
    rw [htrim] at hblanks
    exact hblanks.trans (.cons (.inr (.inr hsigns.2)) (.digits marks digits))
  · obtain ⟨⟨_, _⟩, hread, hresult⟩ := Option.map_eq_some_iff.1 h
    cases hresult
    exact hblanks.trans (follows_takeDigits hread)

theorem follows_takeYearFirst {sep : Char} {d : Date} (hsigns : '-' ∈ marks ∧ '+' ∈ marks)
    (hsep : sep ∈ marks) (h : takeYearFirst sep s = some (d, rest)) : Follows marks s rest := by
  unfold takeYearFirst at h
  simp only [Option.bind_eq_bind, Option.bind_eq_some_iff] at h
  obtain ⟨⟨_, _⟩, hyear, _, hfirst, ⟨_, _⟩, hmonth, _, hsecond, ⟨_, _⟩, hday, _, -, hresult⟩ := h
  cases hresult
  exact (follows_takeYear hsigns hyear).trans <| (follows_expect hsep hfirst).trans <|
    (follows_takeNumber hmonth).trans <| (follows_expect hsep hsecond).trans <|
      follows_takeNumber hday

theorem follows_takeDayFirst {d : Date} (hsigns : '-' ∈ marks ∧ '+' ∈ marks)
    (hpoint : '.' ∈ marks) (h : takeDayFirst s = some (d, rest)) : Follows marks s rest := by
  unfold takeDayFirst at h
  simp only [Option.bind_eq_bind, Option.bind_eq_some_iff] at h
  obtain ⟨⟨_, _⟩, hday, _, hfirst, ⟨_, _⟩, hmonth, _, hsecond, ⟨_, _⟩, hyear, _, -, hresult⟩ := h
  cases hresult
  exact (follows_takeNumber hday).trans <| (follows_expect hpoint hfirst).trans <|
    (follows_takeNumber hmonth).trans <| (follows_expect hpoint hsecond).trans <|
      follows_takeYear hsigns hyear

/-- The marks in the text of a date. -/
def dateMarks : List Char := ['-', '+', '/', '.']

/-- The text of a date has no colon. -/
theorem colon_not_mem_of_dateOf? {d : Date} (h : dateOf? s = some d) : ':' ∉ s := by
  have hcolon : ¬ Among dateMarks ':' := by unfold Among; decide
  have hfollows : Follows dateMarks s [] := by
    rcases (Option.orElse_eq_some _ _ _).1 h with hdash | ⟨-, hrest⟩
    · exact follows_takeYearFirst (by decide) (by decide) (taken_of_whole hdash)
    · rcases (Option.orElse_eq_some _ _ _).1 hrest with hslash | ⟨-, hpoint⟩
      · exact follows_takeYearFirst (by decide) (by decide) (taken_of_whole hslash)
      · exact follows_takeDayFirst (by decide) (by decide) (taken_of_whole hpoint)
  exact hfollows.not_mem hcolon

/-! ## Dates and times -/

theorem colon_mem_of_takeHourMinute {parts : Nat × Nat}
    (h : takeHourMinute s = some (parts, rest)) : ':' ∈ s := by
  unfold takeHourMinute at h
  simp only [Option.bind_eq_bind, Option.bind_eq_some_iff] at h
  obtain ⟨⟨_, clock⟩, hhour, _, hcolon, -⟩ := h
  have hnumber : Follows [] s clock := follows_takeNumber hhour
  have hmark : clock = ':' :: _ := eq_cons_of_expect hcolon
  exact hnumber.mem (hmark ▸ List.mem_cons_self)

theorem colon_mem_of_timeOf? {t : TimeOfDay} (h : timeOf? s = some t) : ':' ∈ s := by
  rcases (Option.orElse_eq_some _ _ _).1 h with hfull | ⟨-, hshort⟩
  · have hread := taken_of_whole hfull
    unfold takeFullTime at hread
    obtain ⟨⟨_, _⟩, hclock, -⟩ := Option.bind_eq_some_iff.1 hread
    exact colon_mem_of_takeHourMinute hclock
  · have hread := taken_of_whole hshort
    unfold takeShortTime at hread
    obtain ⟨⟨_, _⟩, hclock, -⟩ := Option.bind_eq_some_iff.1 hread
    exact colon_mem_of_takeHourMinute hclock

/-- The text of a date and a time has a colon. -/
theorem colon_mem_of_dateTimeOf? {m : LocalDateTime} (h : dateTimeOf? s = some m) : ':' ∈ s := by
  unfold dateTimeOf? at h
  obtain ⟨⟨_, rest⟩, hdate, h⟩ := Option.bind_eq_some_iff.1 h
  obtain ⟨time, htime, -⟩ := Option.bind_eq_some_iff.1 h
  have hdate : Follows dateMarks s rest := follows_takeYearFirst (by decide) (by decide) hdate
  refine hdate.mem ?_
  rcases (Option.orElse_eq_some _ _ _).1 htime with hmarked | ⟨-, hplain⟩
  · obtain ⟨clock, hmark, hread⟩ := Option.bind_eq_some_iff.1 hmarked
    have hmark : Follows ['T'] rest clock := follows_expect (by decide) hmark
    exact hmark.mem (colon_mem_of_timeOf? hread)
  · exact colon_mem_of_timeOf? hplain

/-- No text is that of a date and that of a date and a time. -/
theorem dateOf?_of_dateTimeOf? {m : LocalDateTime} (h : dateTimeOf? s = some m) :
    dateOf? s = none := by
  cases hdate : dateOf? s with
  | none => rfl
  | some d => exact absurd (colon_mem_of_dateTimeOf? h) (colon_not_mem_of_dateOf? hdate)

/-! ## Moments with an offset -/

theorem follows_naturalOf? {digits : List Char} {n : Nat} (h : naturalOf? digits = some n)
    (rest : List Char) : Follows marks (digits ++ rest) rest :=
  ⟨digits, rfl, fun c hc => .inr (.inl ((naturalOf?_inv h).1.digits c hc))⟩

theorem follows_takeTwoDigits {n : Nat} (h : takeTwoDigits s = some (n, rest)) :
    Follows marks s rest := by
  unfold takeTwoDigits at h
  split at h
  · obtain ⟨_, hread, hresult⟩ := Option.map_eq_some_iff.1 h
    cases hresult
    exact follows_naturalOf? hread _
  · cases h

theorem follows_takeFourDigits {n : Nat} (h : takeFourDigits s = some (n, rest)) :
    Follows marks s rest := by
  unfold takeFourDigits at h
  split at h
  · obtain ⟨_, hread, hresult⟩ := Option.map_eq_some_iff.1 h
    cases hresult
    exact follows_naturalOf? hread _
  · cases h

/-- The marks in the text of a moment with an offset. -/
def momentMarks : List Char := ['-', 'T', 't', ' ', ':', '.', 'Z', 'z', '+', '\u2212']

theorem follows_takeFraction {n : Nat} (h : takeFraction s = some (n, rest)) :
    Follows momentMarks s rest := by
  unfold takeFraction at h
  split at h
  · unfold takeNanos at h
    obtain ⟨_, -, hresult⟩ := Option.map_eq_some_iff.1 h
    cases hresult
    exact .cons (.inr (.inr (by decide)))
      ((follows_spanDigits momentMarks 9 _).trans (.digits momentMarks _))
  · cases h
    exact .refl momentMarks _

theorem follows_skipTimeMark (h : skipTimeMark s = some rest) : Follows momentMarks s rest := by
  unfold skipTimeMark at h
  split at h
  · cases h
  · split at h
    · rename_i hmark
      cases h
      refine .cons (.inr (.inr ?_)) (.refl momentMarks _)
      rcases hmark with rfl | rfl | rfl <;> decide
    · cases h

theorem follows_takeClockOffset {seconds : Int} (h : takeClockOffset s = some (seconds, rest)) :
    Follows momentMarks s rest := by
  unfold takeClockOffset at h
  simp only [Option.bind_eq_bind, Option.bind_eq_some_iff] at h
  obtain ⟨⟨_, _⟩, hhours, _, hcolon, ⟨_, _⟩, hminutes, hresult⟩ := h
  split at hresult
  · cases hresult
    exact (follows_takeTwoDigits hhours).trans <| (follows_expect (by decide) hcolon).trans <|
      follows_takeTwoDigits hminutes
  · cases hresult

theorem follows_takeOffset {offset : Int} (h : takeOffset s = some (offset, rest)) :
    Follows momentMarks s rest := by
  cases s with
  | nil => cases h
  | cons c s =>
    rw [takeOffset] at h
    split at h
    · rename_i hmark
      cases h
      refine .cons (.inr (.inr ?_)) (.refl momentMarks _)
      rcases hmark with rfl | rfl <;> decide
    · split at h
      · rename_i hmark
        exact .cons (.inr (.inr (hmark ▸ by decide))) (follows_takeClockOffset h)
      · split at h
        · rename_i hmark
          obtain ⟨⟨_, _⟩, hread, hresult⟩ := Option.map_eq_some_iff.1 h
          cases hresult
          refine .cons (.inr (.inr ?_)) (follows_takeClockOffset hread)
          rcases hmark with rfl | rfl <;> decide
        · cases h

/-- The text of a moment with an offset has no bracket. -/
theorem bracket_not_mem_of_offsetDateTimeOf? {m : OffsetDateTime}
    (h : offsetDateTimeOf? s = some m) : '[' ∉ s := by
  unfold offsetDateTimeOf? at h
  obtain ⟨⟨_, _⟩, hyear, h⟩ := Option.bind_eq_some_iff.1 h
  obtain ⟨_, hfirst, h⟩ := Option.bind_eq_some_iff.1 h
  obtain ⟨⟨_, _⟩, hmonth, h⟩ := Option.bind_eq_some_iff.1 h
  obtain ⟨_, hsecond, h⟩ := Option.bind_eq_some_iff.1 h
  obtain ⟨⟨_, dated⟩, hday, h⟩ := Option.bind_eq_some_iff.1 h
  obtain ⟨marked, hmark, h⟩ := Option.bind_eq_some_iff.1 h
  obtain ⟨⟨_, _⟩, hhour, h⟩ := Option.bind_eq_some_iff.1 h
  obtain ⟨_, hcolon, h⟩ := Option.bind_eq_some_iff.1 h
  obtain ⟨⟨_, _⟩, hminute, h⟩ := Option.bind_eq_some_iff.1 h
  obtain ⟨_, hlast, h⟩ := Option.bind_eq_some_iff.1 h
  obtain ⟨⟨_, timed⟩, hsec, h⟩ := Option.bind_eq_some_iff.1 h
  obtain ⟨⟨_, _⟩, hfraction, h⟩ := Option.bind_eq_some_iff.1 h
  obtain ⟨_, hoffset, -⟩ := Option.bind_eq_some_iff.1 h
  have hdate : Follows momentMarks s dated :=
    (follows_takeFourDigits hyear).trans <| (follows_expect (by decide) hfirst).trans <|
      (follows_takeTwoDigits hmonth).trans <| (follows_expect (by decide) hsecond).trans <|
        follows_takeTwoDigits hday
  have hclock : Follows momentMarks marked timed :=
    (follows_takeTwoDigits hhour).trans <| (follows_expect (by decide) hcolon).trans <|
      (follows_takeTwoDigits hminute).trans <| (follows_expect (by decide) hlast).trans <|
        follows_takeTwoDigits hsec
  have hmoment : Follows momentMarks s [] :=
    hdate.trans <| (follows_skipTimeMark hmark).trans <| hclock.trans <|
      (follows_takeFraction hfraction).trans (follows_takeOffset (taken_of_whole hoffset))
  exact hmoment.not_mem (by unfold Among; decide)

/-! ## Instants -/

/-- Two moments name the same instant: one second of universal time, and in it one nanosecond. -/
def OffsetDateTime.SameInstant (m n : OffsetDateTime) : Prop :=
  m.epochSecond = n.epochSecond ∧ m.wall.time.nano = n.wall.time.nano

theorem OffsetDateTime.SameInstant.refl (m : OffsetDateTime) : m.SameInstant m := ⟨rfl, rfl⟩

theorem toUniversal_spec (m : OffsetDateTime) :
    m.toUniversal.offset = 0 ∧ m.toUniversal.SameInstant m := by
  unfold OffsetDateTime.toUniversal
  split
  · rename_i hzero
    exact ⟨hzero, .refl m⟩
  · refine ⟨rfl, ?_, rfl⟩
    exact (Int.sub_zero _).trans (LocalDateTime.epochSecond_ofEpochSecond _ _ _)

/-! ## Outer blanks -/

theorem readOffsetDateTime_trim (s : List Char) :
    readOffsetDateTime (trim s) = readOffsetDateTime s := by
  unfold readOffsetDateTime
  rw [trim_trim]

theorem readLocalDateTime_trim (s : List Char) :
    readLocalDateTime (trim s) = readLocalDateTime s := by
  unfold readLocalDateTime
  rw [trim_trim]

/-! ## One text, several readers -/

variable {m : LocalDateTime} {z : OffsetDateTime}

theorem readDate_of_readLocalDateTime (h : readLocalDateTime s = some m) :
    readDate s = some m.date := by
  have hdate : dateOf? (trim s) = none ∨ dateOf? (trim s) = some m.date := by
    rcases (Option.orElse_eq_some _ _ _).1 h with hmoment | ⟨-, hmidnight⟩
    · exact .inl (dateOf?_of_dateTimeOf? hmoment)
    · obtain ⟨d, hd, rfl⟩ := Option.map_eq_some_iff.1 hmidnight
      exact .inr hd
  unfold readDate
  simp only [readLocalDateTime_trim, h]
  rcases hdate with hnone | hsome
  · rw [hnone]
    rfl
  · rw [hsome]
    rfl

theorem readInstant_of_readLocalDateTime (hoffset : readOffsetDateTime s = none)
    (h : readLocalDateTime s = some m) : readInstant s = some ⟨m, 0⟩ := by
  unfold readInstant
  simp only [readOffsetDateTime_trim, readLocalDateTime_trim, hoffset, h]
  rfl

theorem readInstant_of_readOffsetDateTime (h : readOffsetDateTime s = some z) :
    readInstant s = some z.toUniversal := by
  unfold readInstant
  simp only [readOffsetDateTime_trim, h]
  rfl

/-- No zone is cut off from the text of a moment with an offset. -/
theorem readZonedDateTime_of_readOffsetDateTime (h : readOffsetDateTime s = some z) :
    readZonedDateTime s = some z := by
  have hbracket : '[' ∉ trim s := bracket_not_mem_of_offsetDateTimeOf? h
  unfold readZonedDateTime
  simp only [readOffsetDateTime_trim]
  rw [if_neg fun hzone => hbracket hzone.1, h]

theorem readCalendar_of_readOffsetDateTime (h : readOffsetDateTime s = some z) :
    readCalendar s = some z := by
  unfold readCalendar
  rw [h]
  rfl

/-- The text of a date is read as its midnight, since it is not that of a date and a time. -/
theorem readLocalDateTime_of_dateOf? {d : Date} (h : dateOf? (trim s) = some d) :
    readLocalDateTime s = some ⟨d, .midnight⟩ := by
  have hmoment : dateTimeOf? (trim s) = none := by
    cases hread : dateTimeOf? (trim s) with
    | none => rfl
    | some m => rw [dateOf?_of_dateTimeOf? hread] at h; cases h
  unfold readLocalDateTime
  simp only [hmoment, h]
  rfl

theorem readInstant_of_readCalendar (h : readCalendar s = some z) :
    ∃ i, readInstant s = some i ∧ i.offset = 0 ∧ i.SameInstant z := by
  rcases (Option.orElse_eq_some _ _ _).1 h with hoffset | ⟨hoffset, hmidnight⟩
  · exact ⟨z.toUniversal, readInstant_of_readOffsetDateTime hoffset, toUniversal_spec z⟩
  · obtain ⟨d, hd, rfl⟩ := Option.map_eq_some_iff.1 hmidnight
    have hlocal := readLocalDateTime_of_dateOf? hd
    exact ⟨_, readInstant_of_readLocalDateTime hoffset hlocal, rfl, .refl _⟩

/-- **The temporal readers agree on the texts that they share.** What is read as a date and a time
on a wall clock is read as a date, and that is the day on the clock; it is read as an instant of
universal time, by the same clock, unless it is a moment with an offset. A moment with an offset is
read as it is with a zone and as a calendar moment, and as an instant it is the same one on the
clock of universal time. Whatever is read as a calendar moment is read as an instant, and that is
the same one. -/
theorem readers_agree (s : List Char) :
    (∀ m, readLocalDateTime s = some m → readDate s = some m.date ∧
      (readOffsetDateTime s = none → readInstant s = some ⟨m, 0⟩)) ∧
    (∀ z, readOffsetDateTime s = some z →
      (∃ i, readInstant s = some i ∧ i.offset = 0 ∧ i.SameInstant z) ∧
      readZonedDateTime s = some z ∧ readCalendar s = some z) ∧
    ∀ z, readCalendar s = some z →
      ∃ i, readInstant s = some i ∧ i.offset = 0 ∧ i.SameInstant z := by
  refine ⟨?_, ?_, fun z h => readInstant_of_readCalendar h⟩
  · intro m h
    refine ⟨readDate_of_readLocalDateTime h, ?_⟩
    exact fun hoffset => readInstant_of_readLocalDateTime hoffset h
  · intro z h
    refine ⟨⟨z.toUniversal, readInstant_of_readOffsetDateTime h, toUniversal_spec z⟩, ?_, ?_⟩
    · exact readZonedDateTime_of_readOffsetDateTime h
    · exact readCalendar_of_readOffsetDateTime h

/-- The middle of a leap second on a clock behind universal time, where the next year has begun. -/
def leapEvening : OffsetDateTime := { Total.leapMoment with offset := -19800 }

/-- The midnight of a day that is written first. -/
def firstMidnight : OffsetDateTime := ⟨⟨⟨2024, 2, 29, by decide, by decide⟩, .midnight⟩, 0⟩

theorem readers_agree_of_quarterPast :
    (readLocalDateTime "2024-01-15 10:00:00.25".toList = some Total.quarterPast ∧
      readDate "2024-01-15 10:00:00.25".toList = some Total.quarterPast.date ∧
      readInstant "2024-01-15 10:00:00.25".toList = some ⟨Total.quarterPast, 0⟩) ∧
    (readOffsetDateTime "2016-12-31T23:59:60.5-05:30".toList = some leapEvening ∧
      (∃ i, readInstant "2016-12-31T23:59:60.5-05:30".toList = some i ∧ i.offset = 0 ∧
        i.SameInstant leapEvening) ∧
      readZonedDateTime "2016-12-31T23:59:60.5-05:30".toList = some leapEvening ∧
      readCalendar "2016-12-31T23:59:60.5-05:30".toList = some leapEvening) ∧
    readCalendar "29.02.2024".toList = some firstMidnight ∧
      ∃ i, readInstant "29.02.2024".toList = some i ∧ i.offset = 0 ∧
        i.SameInstant firstMidnight := by
  have hlocal : readLocalDateTime "2024-01-15 10:00:00.25".toList = some Total.quarterPast := by
    decide +kernel
  have hoffset : readOffsetDateTime "2016-12-31T23:59:60.5-05:30".toList = some leapEvening := by
    decide +kernel
  have hcalendar : readCalendar "29.02.2024".toList = some firstMidnight := by decide +kernel
  obtain ⟨hdate, hinstant⟩ := (readers_agree _).1 _ hlocal
  exact ⟨⟨hlocal, hdate, hinstant (by decide +kernel)⟩,
    ⟨hoffset, (readers_agree _).2.1 _ hoffset⟩, hcalendar, (readers_agree _).2.2 _ hcalendar⟩

end Calendar

end DataGrid
