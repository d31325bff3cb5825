import DataGrid.Proofs.ClockTexts
import DataGrid.Total
import DataGrid.Value.Reading
import Mathlib.Data.Option.Basic

/-!
# The default texts of temporal totals

Dates, times and moments with an offset are read back from their default texts as they were,
with every digit of the second and with the offset. The default text of a date and time on a wall
clock stops at the second, so it is read back as the start of the second, and two such moments of
one second have the same text.
-/

namespace DataGrid

open Text Number Calendar

namespace Calendar

/-! ## What the readers give -/

theorem TimeOfDay.regular_midnight : midnight.Regular := .inl nanosInSecond_pos

theorem TimeOfDay.regular_of_of? {hour minute second nano : Nat} {t : TimeOfDay}
    (h : TimeOfDay.of? hour minute second nano = some t) : t.Regular := by
  unfold of? at h
  split at h
  · rename_i hparts
    split at h
    · cases h
      exact .inr (by simp only; omega)
    · cases h
      exact .inl hparts.2.2.2
  · cases h

variable {s : List Char}

theorem taken_of_whole {α : Type} {take : Take α} {a : α} (h : whole take s = some a) :
    take s = some (a, []) := by
  unfold whole at h
  split at h
  · rename_i htaken
    cases h
    exact htaken
  · cases h

theorem regular_of_timeOf? {t : TimeOfDay} (h : timeOf? s = some t) : t.Regular := by
  rcases (Option.orElse_eq_some _ _ _).1 h with hfull | ⟨-, hshort⟩
  · have hread := taken_of_whole hfull
    unfold takeFullTime at hread
    simp only [Option.bind_eq_bind, Option.bind_eq_some_iff] at hread
    obtain ⟨_, -, _, -, _, -, _, -, time, htime, hresult⟩ := hread
    have heq : time = t := congrArg Prod.fst (Option.some.inj hresult)
    exact heq ▸ TimeOfDay.regular_of_of? htime
  · have hread := taken_of_whole hshort
    unfold takeShortTime at hread
    simp only [Option.bind_eq_bind, Option.bind_eq_some_iff] at hread
    obtain ⟨_, -, time, htime, hresult⟩ := hread
    have heq : time = t := congrArg Prod.fst (Option.some.inj hresult)
    exact heq ▸ TimeOfDay.regular_of_of? htime

theorem regular_of_readLocalDateTime {m : LocalDateTime} (h : readLocalDateTime s = some m) :
    m.time.Regular := by
  rcases (Option.orElse_eq_some _ _ _).1 h with hmoment | ⟨-, hdate⟩
  · unfold dateTimeOf? at hmoment
    simp only [Option.bind_eq_bind, Option.bind_eq_some_iff] at hmoment
    obtain ⟨_, -, time, htime, hresult⟩ := hmoment
    cases hresult
    rcases (Option.orElse_eq_some _ _ _).1 htime with hmarked | ⟨-, hplain⟩
    · obtain ⟨_, -, hread⟩ := Option.bind_eq_some_iff.1 hmarked
      exact regular_of_timeOf? hread
    · exact regular_of_timeOf? hplain
  · obtain ⟨_, -, rfl⟩ := Option.map_eq_some_iff.1 hdate
    exact TimeOfDay.regular_midnight

theorem inMinutes_of_takeClockOffset {seconds : Int} {rest : List Char}
    (h : takeClockOffset s = some (seconds, rest)) :
    OffsetInMinutes seconds ∧ OffsetInMinutes (-seconds) := by
  unfold takeClockOffset at h
  simp only [Option.bind_eq_bind, Option.bind_eq_some_iff] at h
  obtain ⟨⟨hours, _⟩, -, _, -, ⟨minutes, _⟩, -, hresult⟩ := h
  split at hresult
  · rename_i hlimits
    cases hresult
    unfold OffsetInMinutes secondsInDay
    simp only at hlimits ⊢
    omega
  · cases hresult

theorem inMinutes_of_takeOffset {offset : Int} {rest : List Char}
    (h : takeOffset s = some (offset, rest)) : OffsetInMinutes offset := by
  unfold takeOffset at h
  split at h
  · cases h
  · split at h
    · cases h
      exact ⟨rfl, by decide⟩
    · split at h
      · exact (inMinutes_of_takeClockOffset h).1
      · split at h
        · obtain ⟨⟨seconds, _⟩, hread, hresult⟩ := Option.map_eq_some_iff.1 h
          cases hresult
          exact (inMinutes_of_takeClockOffset hread).2
        · cases h

/-- Moments that are read back from their text. -/
def OffsetDateTime.Regular (m : OffsetDateTime) : Prop :=
  m.wall.time.Regular ∧ OffsetInMinutes m.offset

variable {m : OffsetDateTime}

theorem regular_of_readOffsetDateTime (h : readOffsetDateTime s = some m) : m.Regular := by
  unfold readOffsetDateTime offsetDateTimeOf? at h
  -- What stands in front of the offset: year, month, day, hour, minute and second with their
  -- marks, and the fraction.
  iterate 12 obtain ⟨_, -, h⟩ := Option.bind_eq_some_iff.1 h
  obtain ⟨offset, hoffset, h⟩ := Option.bind_eq_some_iff.1 h
  obtain ⟨date, -, h⟩ := Option.bind_eq_some_iff.1 h
  obtain ⟨time, htime, h⟩ := Option.bind_eq_some_iff.1 h
  cases h
  exact ⟨TimeOfDay.regular_of_of? htime, inMinutes_of_takeOffset (taken_of_whole hoffset)⟩

theorem regular_universal {wall : LocalDateTime} (h : wall.time.Regular) :
    OffsetDateTime.Regular ⟨wall, 0⟩ := ⟨h, rfl, by unfold secondsInDay; simp⟩

/-- A step of whole minutes keeps the second of the minute. -/
theorem regular_toUniversal (h : m.Regular) : m.toUniversal.Regular ∧ m.toUniversal.offset = 0 := by
  unfold OffsetDateTime.toUniversal
  split
  · rename_i hzero
    exact ⟨h, hzero⟩
  · refine ⟨regular_universal ?_, rfl⟩
    rcases h.1 with hplain | hleap
    · exact .inl hplain
    · have hminutes := h.2.1
      refine .inr ?_
      unfold LocalDateTime.ofEpochSecond OffsetDateTime.epochSecond LocalDateTime.epochSecond
        secondsInDay
      simp only
      omega

theorem regular_of_momentOfMillis {millis : Int} (h : momentOfMillis millis = some m) :
    m.Regular ∧ m.offset = 0 := by
  unfold momentOfMillis at h
  simp only at h
  split at h
  · cases h
    refine ⟨regular_universal (.inl ?_), rfl⟩
    show (millis % 1000).toNat * 1000000 < nanosInSecond
    unfold nanosInSecond
    omega
  · cases h

theorem regular_of_readInstant (h : readInstant s = some m) : m.Regular ∧ m.offset = 0 := by
  unfold readInstant at h
  rcases (Option.orElse_eq_some _ _ _).1 h with hoffset | ⟨-, hrest⟩
  · obtain ⟨_, hread, rfl⟩ := Option.map_eq_some_iff.1 hoffset
    exact regular_toUniversal (regular_of_readOffsetDateTime hread)
  · rcases (Option.orElse_eq_some _ _ _).1 hrest with hlocal | ⟨-, hmillis⟩
    · obtain ⟨_, hread, rfl⟩ := Option.map_eq_some_iff.1 hlocal
      exact ⟨regular_universal (regular_of_readLocalDateTime hread), rfl⟩
    · obtain ⟨_, -, hread⟩ := Option.bind_eq_some_iff.1 hmillis
      exact regular_of_momentOfMillis hread

theorem regular_of_readZonedDateTime (h : readZonedDateTime s = some m) : m.Regular := by
  unfold readZonedDateTime at h
  simp only at h
  split at h
  · exact regular_of_readOffsetDateTime h
  · exact regular_of_readOffsetDateTime h

theorem regular_of_readCalendar (h : readCalendar s = some m) : m.Regular := by
  rcases (Option.orElse_eq_some _ _ _).1 h with hoffset | ⟨-, hdate⟩
  · exact regular_of_readOffsetDateTime hoffset
  · obtain ⟨_, -, rfl⟩ := Option.map_eq_some_iff.1 hdate
    exact regular_universal TimeOfDay.regular_midnight

/-! ## The readers on default texts -/

/-- Characters that no reader trims, and that begin no name of a zone. -/
def Plain (c : Char) : Prop := isBlank c = false ∧ c ≠ '['

theorem plain_paddedDigits (width n : Nat) : ∀ c ∈ paddedDigits width n, Plain c := by
  intro c hc
  have hdigit : c.isDigit = true := (digitRun_paddedDigits width n).digits c hc
  refine ⟨isBlank_of_isDigit hdigit, ?_⟩
  rintro rfl
  revert hdigit
  decide

theorem plain_marks : Plain '-' ∧ Plain '+' ∧ Plain ':' ∧ Plain '.' ∧ Plain 'T' := by
  unfold Plain
  decide

theorem plain_yearChars (year : Int) : ∀ c ∈ yearChars year, Plain c := by
  unfold yearChars
  split
  · exact plain_paddedDigits 4 _
  · refine List.forall_mem_cons.2 ⟨?_, plain_paddedDigits 4 _⟩
    split
    · exact plain_marks.1
    · exact plain_marks.2.1

theorem plain_date (d : Date) : ∀ c ∈ d.chars, Plain c := by
  unfold Date.chars
  simp only [List.forall_mem_append, List.forall_mem_cons]
  exact ⟨⟨plain_yearChars _, plain_marks.1, plain_paddedDigits 2 _⟩, plain_marks.1,
    plain_paddedDigits 2 _⟩

theorem plain_clock (t : TimeOfDay) : ∀ c ∈ t.clockChars, Plain c := by
  unfold TimeOfDay.clockChars
  simp only [List.forall_mem_append, List.forall_mem_cons]
  exact ⟨⟨plain_paddedDigits 2 _, plain_marks.2.2.1, plain_paddedDigits 2 _⟩, plain_marks.2.2.1,
    plain_paddedDigits 2 _⟩

theorem plain_time (t : TimeOfDay) : ∀ c ∈ t.chars, Plain c := by
  unfold TimeOfDay.chars fractionChars
  refine List.forall_mem_append.2 ⟨plain_clock t, ?_⟩
  split
  · simp
  · repeat' split
    all_goals exact List.forall_mem_cons.2 ⟨plain_marks.2.2.2.1, plain_paddedDigits _ _⟩

theorem plain_offset (offset : Int) : ∀ c ∈ offsetChars .minutes offset, Plain c := by
  unfold offsetChars
  simp only [List.forall_mem_append, List.forall_mem_cons]
  refine ⟨⟨?_, plain_paddedDigits 2 _⟩, plain_marks.2.2.1, plain_paddedDigits 2 _⟩
  split
  · exact plain_marks.1
  · exact plain_marks.2.1

theorem plain_moment (m : OffsetDateTime) : ∀ c ∈ m.chars, Plain c := by
  unfold OffsetDateTime.chars LocalDateTime.chars
  simp only [List.forall_mem_append, List.forall_mem_cons]
  exact ⟨⟨plain_date _, plain_marks.2.2.2.2, plain_time _⟩, plain_offset _⟩

theorem plain_clockMoment (m : LocalDateTime) : ∀ c ∈ m.clockChars, Plain c := by
  unfold LocalDateTime.clockChars
  simp only [List.forall_mem_append, List.forall_mem_cons]
  exact ⟨plain_date _, plain_marks.2.2.2.2, plain_clock _⟩

theorem trim_of_plain (h : ∀ c ∈ s, Plain c) : trim s = s := trim_eq_self fun c hc => (h c hc).1

theorem readDate_chars {d : Date} (h : d.FourDigits) : readDate d.chars = some d := by
  unfold readDate
  simp only [trim_of_plain (plain_date d), dateOf?_chars h]
  rfl

theorem readTime_chars {t : TimeOfDay} (h : t.Regular) : readTime t.chars = some t := by
  unfold readTime
  rw [trim_of_plain (plain_time t), timeOf?_chars h]

theorem readLocalDateTime_clockChars {m : LocalDateTime} (hdate : m.date.FourDigits)
    (htime : m.time.Regular) : readLocalDateTime m.clockChars = some m.toSecond := by
  unfold readLocalDateTime
  simp only [trim_of_plain (plain_clockMoment m), dateTimeOf?_clockChars hdate htime]
  rfl

theorem readOffsetDateTime_chars (hdate : m.wall.date.FourDigits) (h : m.Regular) :
    readOffsetDateTime m.chars = some m := by
  unfold readOffsetDateTime
  rw [trim_of_plain (plain_moment m), offsetDateTimeOf?_chars hdate h.1 h.2]

theorem readInstant_chars (hdate : m.wall.date.FourDigits) (h : m.Regular) (hzero : m.offset = 0) :
    readInstant m.chars = some m := by
  have hsame : m.toUniversal = m := if_pos hzero
  unfold readInstant
  simp only [trim_of_plain (plain_moment m), readOffsetDateTime_chars hdate h, Option.map_some,
    hsame]
  rfl

theorem readZonedDateTime_chars (hdate : m.wall.date.FourDigits) (h : m.Regular) :
    readZonedDateTime m.chars = some m := by
  have hzone : ¬ ('[' ∈ m.chars ∧ m.chars.getLast? = some ']') :=
    fun hname => (plain_moment m '[' hname.1).2 rfl
  unfold readZonedDateTime
  simp only [trim_of_plain (plain_moment m)]
  rw [if_neg hzone, readOffsetDateTime_chars hdate h]

theorem readCalendar_chars (hdate : m.wall.date.FourDigits) (h : m.Regular) :
    readCalendar m.chars = some m := by
  unfold readCalendar
  rw [readOffsetDateTime_chars hdate h]
  rfl

end Calendar

/-! ## Temporal totals -/

namespace Value

/-- The year of a value that has one, on its own clock. -/
def year? : Value → Option Int
  | date d => some d.year
  | dateTime m => some m.date.year
  | zoned m => some m.wall.date.year
  | _ => none

/-- What the default text shows of a temporal value: a moment on a wall clock to the second, and
everything of the others. -/
def shown : Value → Value
  | dateTime m => dateTime m.toSecond
  | v => v

/-- The fraction of the second on a wall clock. -/
def clockFraction : Value → Nat
  | dateTime m => m.time.fraction
  | _ => 0

/-- A value is shown in full unless a wall clock stands within a second. -/
theorem shown_eq_self_iff (v : Value) : v.shown = v ↔ v.clockFraction = 0 := by
  cases v with
  | null | bool | int | float | decimal | text | date | time | zoned => exact iff_of_true rfl rfl
  | dateTime m =>
    have hsplit := Nat.div_add_mod' m.time.nano nanosInSecond
    constructor
    · intro h
      have hnano := congrArg (fun m : LocalDateTime => m.time.nano) (Value.dateTime.inj h)
      change m.time.nano / nanosInSecond * nanosInSecond = m.time.nano at hnano
      show m.time.nano % nanosInSecond = 0
      omega
    · intro h
      change m.time.nano % nanosInSecond = 0 at h
      have hnano : m.time.toSecond.nano = m.time.nano := by
        show m.time.nano / nanosInSecond * nanosInSecond = m.time.nano
        omega
      have htime : m.time.toSecond = m.time := TimeOfDay.ext_parts rfl hnano
      exact congrArg (fun t => dateTime ⟨m.date, t⟩) htime

end Value

namespace Kind

/-- A kind reads with a reader what stands between the outer blanks of a text. -/
def Reads {α : Type} (kind : Kind) (read : List Char → Option α) (value : α → Value) : Prop :=
  ∀ raw : String, kind.read? raw = (read (trim raw.toList)).map value

theorem reads_date : date.Reads readDate .date := fun _ => rfl

theorem reads_time : time.Reads readTime .time := fun _ => rfl

theorem reads_timestamp : timestamp.Reads readLocalDateTime .dateTime := fun _ => rfl

theorem reads_instant : instant.Reads readInstant .zoned := fun _ => rfl

theorem reads_offsetDateTime : offsetDateTime.Reads readOffsetDateTime .zoned := fun _ => rfl

theorem reads_zonedDateTime : zonedDateTime.Reads readZonedDateTime .zoned := fun _ => rfl

theorem reads_calendar : calendar.Reads readCalendar .zoned := fun _ => rfl

section Reads

variable {α : Type} {kind : Kind} {read : List Char → Option α} {value : α → Value}
  (h : kind.Reads read value)

include h

theorem Reads.exists_of_read? {raw : String} {v : Value} (hread : kind.read? raw = some v) :
    ∃ s a, read s = some a ∧ value a = v :=
  ⟨trim raw.toList, Option.map_eq_some_iff.1 ((h raw).symm.trans hread)⟩

/-- From the default text of a temporal value a kind reads what its reader reads from the
characters of the text. -/
theorem Reads.read?_text (a : α) {v : Value} {t : Temporal} {s : List Char}
    (htemporal : v.asTemporal? = some t) (htext : t.text = String.ofList s)
    (hplain : ∀ c ∈ s, Plain c) (hread : read s = some a) :
    ∃ total text, Total.ofValue? v = some total ∧ total.text? = some text ∧
      kind.read? text = some (value a) := by
  refine ⟨.temporal t, t.text, ?_, rfl, ?_⟩
  · cases v with
    | null | bool | int | float | decimal | text => cases htemporal
    | date | time | dateTime | zoned =>
      cases htemporal
      rfl
  · rw [h, htext, String.toList_ofList, trim_of_plain hplain, hread]
    rfl

end Reads

end Kind

namespace Total

/-- What a temporal kind reads from the default text of a value that it has read. -/
theorem read?_shown {kind : Kind} {raw : String} {v : Value} (hkind : kind.isTemporal = true)
    (hoffset : kind ≠ .offsetTime) (hread : kind.read? raw = some v)
    (hyear : ∀ year, v.year? = some year → 0 ≤ year ∧ year ≤ 9999) :
    (∃ total text, ofValue? v = some total ∧ total.text? = some text ∧
      kind.read? text = some v.shown) ∧ (kind ≠ .timestamp → v.clockFraction = 0) := by
  cases kind with
  | date =>
    obtain ⟨s, d, -, rfl⟩ := Kind.reads_date.exists_of_read? hread
    refine ⟨?_, fun _ => rfl⟩
    exact Kind.reads_date.read?_text d rfl rfl (plain_date d) (readDate_chars (hyear _ rfl))
  | time =>
    obtain ⟨s, t, ht, rfl⟩ := Kind.reads_time.exists_of_read? hread
    refine ⟨?_, fun _ => rfl⟩
    exact Kind.reads_time.read?_text t rfl rfl (plain_time t)
      (readTime_chars (regular_of_timeOf? ht))
  | timestamp =>
    obtain ⟨s, m, hm, rfl⟩ := Kind.reads_timestamp.exists_of_read? hread
    refine ⟨?_, fun h => absurd rfl h⟩
    exact Kind.reads_timestamp.read?_text m.toSecond rfl rfl (plain_clockMoment m)
      (readLocalDateTime_clockChars (hyear _ rfl) (regular_of_readLocalDateTime hm))
  | instant =>
    obtain ⟨s, m, hm, rfl⟩ := Kind.reads_instant.exists_of_read? hread
    obtain ⟨hregular, hzero⟩ := regular_of_readInstant hm
    refine ⟨?_, fun _ => rfl⟩
    exact Kind.reads_instant.read?_text m rfl rfl (plain_moment m)
      (readInstant_chars (hyear _ rfl) hregular hzero)
  | offsetDateTime =>
    obtain ⟨s, m, hm, rfl⟩ := Kind.reads_offsetDateTime.exists_of_read? hread
    refine ⟨?_, fun _ => rfl⟩
    exact Kind.reads_offsetDateTime.read?_text m rfl rfl (plain_moment m)
      (readOffsetDateTime_chars (hyear _ rfl) (regular_of_readOffsetDateTime hm))
  | zonedDateTime =>
    obtain ⟨s, m, hm, rfl⟩ := Kind.reads_zonedDateTime.exists_of_read? hread
    refine ⟨?_, fun _ => rfl⟩
    exact Kind.reads_zonedDateTime.read?_text m rfl rfl (plain_moment m)
      (readZonedDateTime_chars (hyear _ rfl) (regular_of_readZonedDateTime hm))
  | calendar =>
    obtain ⟨s, m, hm, rfl⟩ := Kind.reads_calendar.exists_of_read? hread
    refine ⟨?_, fun _ => rfl⟩
    exact Kind.reads_calendar.read?_text m rfl rfl (plain_moment m)
      (readCalendar_chars (hyear _ rfl) (regular_of_readCalendar hm))
  | offsetTime => exact absurd rfl hoffset
  | byte | short | int | long | decimal | float | double | text | bool | enumeration
    | relatedCount => cases hkind

/-- **Default texts of temporal totals are read back, but for the fraction of a wall clock.** A
value that a temporal kind has read, but not a time of day with an offset or a value of a year
outside 0 to 9999, has a default text, and from it the kind reads what the text shows of the value.
That is the value itself, with its fraction and its offset, unless the kind is that of timestamps
and the second has a fraction. -/
theorem read?_defaultText {kind : Kind} {raw : String} {v : Value}
    (hkind : kind.isTemporal = true) (hoffset : kind ≠ .offsetTime)
    (hread : kind.read? raw = some v)
    (hyear : ∀ year, v.year? = some year → 0 ≤ year ∧ year ≤ 9999) :
    ∃ total text, ofValue? v = some total ∧ total.text? = some text ∧
      kind.read? text = some v.shown ∧
      (kind.read? text = some v ↔ kind ≠ .timestamp ∨ v.clockFraction = 0) := by
  obtain ⟨⟨total, text, htotal, htext, hback⟩, hclock⟩ := read?_shown hkind hoffset hread hyear
  refine ⟨total, text, htotal, htext, hback, ?_⟩
  rw [hback, Option.some_inj, Value.shown_eq_self_iff]
  exact ⟨.inr, fun h => h.elim hclock id⟩

/-- The middle of a leap second on a clock that is half an hour off the full one. -/
def leapMoment : OffsetDateTime :=
  ⟨⟨⟨2016, 12, 31, by decide, by decide⟩, ⟨86399, 1500000000, by decide, by decide⟩⟩, 19800⟩

/-- A quarter of a second past ten on a wall clock. -/
def quarterPast : LocalDateTime :=
  ⟨⟨2024, 1, 15, by decide, by decide⟩, ⟨36000, 250000000, by decide, by decide⟩⟩

theorem read?_quarterPast :
    Kind.timestamp.read? "2024-01-15 10:00:00.25" = some (.dateTime quarterPast) := by
  decide +kernel

/-- The leap second comes back with its half and its offset; the wall clock stops at ten. -/
theorem read?_defaultText_of_leap :
    Kind.offsetDateTime.read? "2016-12-31T23:59:60.5+05:30" = some (.zoned leapMoment) ∧
      (∃ total text, ofValue? (.zoned leapMoment) = some total ∧ total.text? = some text ∧
        Kind.offsetDateTime.read? text = some (.zoned leapMoment)) ∧
      Kind.timestamp.read? "2024-01-15 10:00:00.25" = some (.dateTime quarterPast) ∧
      ∃ total text, ofValue? (.dateTime quarterPast) = some total ∧ total.text? = some text ∧
        Kind.timestamp.read? text = some (.dateTime quarterPast.toSecond) := by
  have hleap : Kind.offsetDateTime.read? "2016-12-31T23:59:60.5+05:30" =
      some (.zoned leapMoment) := by decide +kernel
  have hyear : ∀ year, (Value.zoned leapMoment).year? = some year → 0 ≤ year ∧ year ≤ 9999 := by
    rintro _ ⟨⟩
    decide
  have hlocal : ∀ year, (Value.dateTime quarterPast).year? = some year →
      0 ≤ year ∧ year ≤ 9999 := by
    rintro _ ⟨⟩
    decide
  obtain ⟨total, text, htotal, htext, -, hback⟩ :=
    read?_defaultText (by decide) (by decide) hleap hyear
  obtain ⟨total', text', htotal', htext', hshown, -⟩ :=
    read?_defaultText (by decide) (by decide) read?_quarterPast hlocal
  exact ⟨hleap, ⟨total, text, htotal, htext, hback.2 (.inl (by decide))⟩, read?_quarterPast,
    total', text', htotal', htext', hshown⟩

/-- Not every temporal value is read back from its default text: a timestamp loses its
milliseconds. -/
theorem not_read?_defaultText_exact : ¬ ∀ (kind : Kind) (raw : String) (v : Value),
    kind.isTemporal = true → kind ≠ .offsetTime → kind.read? raw = some v →
    (∀ year, v.year? = some year → 0 ≤ year ∧ year ≤ 9999) →
    ∃ total text, ofValue? v = some total ∧ total.text? = some text ∧
      kind.read? text = some v := by
  intro hclaim
  obtain ⟨total, text, htotal, htext, hback⟩ := hclaim _ _ _ (by decide) (by decide)
    read?_quarterPast (by rintro _ ⟨⟩; decide)
  cases htotal
  cases htext
  revert hback
  decide +kernel

end Total

end DataGrid
