import DataGrid.Proofs.ClockTexts
import DataGrid.Value.Reading
import Mathlib.Data.List.TakeWhile

/-!
# Times of day with an offset

A time of day is written to the minute, to the second or with a fraction, and behind it stands `Z`
or a signed offset of hours and minutes. The text is cut at its last sign, since no other character
of either half is one, and the reader takes the offset from the time of day around midnight. Two
texts then compare as equal exactly if they stand for one time of day of universal time.
-/

namespace DataGrid

open Text Number Calendar

namespace Calendar

/-! ## Written times and offsets -/

/-- The digits of a fraction of a second. -/
structure FractionDigits where
  digits : List Char
  run : DigitRun digits
  length_le : digits.length ≤ 9

/-- A written time of day: to the minute, to the second, or with a fraction. -/
inductive ClockText where
  | minutes (hour : Fin 24) (minute : Fin 60)
  | seconds (hour : Fin 24) (minute second : Fin 60)
  | fraction (hour : Fin 24) (minute second : Fin 60) (f : FractionDigits)

/-- What stands behind a written time of day: `Z`, or a sign with hours and minutes, between which
a colon may stand. -/
inductive OffsetText where
  | universal
  | signed (east : Bool) (hours : Fin 19) (minutes : Fin 60) (colon : Bool)

/-- The number of nanoseconds. -/
def FractionDigits.nanos (f : FractionDigits) : Nat :=
  runValue f.digits * tenTo (9 - f.digits.length)

namespace ClockText

def chars : ClockText → List Char
  | minutes hour minute => paddedDigits 2 hour ++ ':' :: paddedDigits 2 minute
  | seconds hour minute second =>
    paddedDigits 2 hour ++ ':' :: (paddedDigits 2 minute ++ ':' :: paddedDigits 2 second)
  | fraction hour minute second f =>
    paddedDigits 2 hour ++ ':' :: (paddedDigits 2 minute ++ ':' :: (paddedDigits 2 second ++
      '.' :: f.digits))

/-- The second of the day. -/
def second : ClockText → Nat
  | minutes hour minute => 3600 * hour + 60 * minute
  | seconds hour minute second => 3600 * hour + 60 * minute + second
  | fraction hour minute second _ => 3600 * hour + 60 * minute + second

/-- The nanoseconds in the second. -/
def nano : ClockText → Nat
  | minutes .. => 0
  | seconds .. => 0
  | fraction _ _ _ f => f.nanos

end ClockText

namespace OffsetText

def chars : OffsetText → List Char
  | universal => ['Z']
  | signed east hours minutes colon =>
    (if east then '+' else '-') ::
      (paddedDigits 2 hours ++ ((if colon then [':'] else []) ++ paddedDigits 2 minutes))

/-- Seconds ahead of universal time. -/
def seconds : OffsetText → Int
  | universal => 0
  | signed east hours minutes _ =>
    let size : Int := (hours * 3600 + minutes * 60 : Nat)
    if east then size else -size

end OffsetText

/-! ## The value of a written time -/

theorem FractionDigits.nanos_lt (f : FractionDigits) : f.nanos < nanosInSecond := by
  have hplaces : tenTo f.digits.length * tenTo (9 - f.digits.length) = nanosInSecond := by
    rw [← tenTo_add, Nat.add_sub_cancel' f.length_le]
    rfl
  rw [← hplaces]
  exact Nat.mul_lt_mul_of_pos_right (runValue_lt f.run.digits) (tenTo_pos _)

namespace ClockText

variable (c : ClockText)

theorem second_lt : c.second < secondsInDay := by
  unfold secondsInDay
  cases c <;> simp only [second] <;> omega

theorem nano_lt : c.nano < nanosInSecond := by
  cases c with
  | minutes | seconds => exact nanosInSecond_pos
  | fraction _ _ _ f => exact f.nanos_lt

/-- The time of day that is written. -/
def time : TimeOfDay :=
  ⟨c.second, c.nano, c.second_lt,
    Nat.lt_of_lt_of_le c.nano_lt (Nat.le_mul_of_pos_left _ (by decide))⟩

end ClockText

theorem TimeOfDay.of?_of_lt {hour minute second nano : Nat} {t : TimeOfDay} (hhour : hour < 24)
    (hminute : minute < 60) (hsecond : second < 60) (hnano : nano < nanosInSecond)
    (ht : t.second = 3600 * hour + 60 * minute + second ∧ t.nano = nano) :
    TimeOfDay.of? hour minute second nano = some t := by
  unfold of?
  rw [dif_pos ⟨hhour, hminute, Nat.le_of_lt hsecond, hnano⟩, dif_neg (Nat.ne_of_lt hsecond)]
  exact congrArg some (ext_parts ht.1.symm ht.2.symm)

/-- A time of day with a second is read with all its parts. -/
theorem takeFullTime_parts (t : TimeOfDay) (rest : List Char) {hour minute second nano : Nat}
    (hhour : hour < 24) (hminute : minute < 60) (hsecond : second < 60)
    (hfraction : takeFraction rest = some (nano, [])) (hnano : nano < nanosInSecond)
    (ht : t.second = 3600 * hour + 60 * minute + second ∧ t.nano = nano) :
    takeFullTime (paddedDigits 2 hour ++ ':' :: (paddedDigits 2 minute ++
      ':' :: (paddedDigits 2 second ++ rest))) = some (t, []) := by
  unfold takeFullTime
  refine bind_of_eq (takeHourMinute_chars _ (by omega) (by omega)) ?_
  refine bind_of_eq (expect_cons _ _) ?_
  refine bind_of_eq (takeNumber_paddedDigits _ (by omega)) ?_
  refine bind_of_eq hfraction ?_
  exact bind_of_eq (TimeOfDay.of?_of_lt hhour hminute hsecond hnano ht) rfl

theorem takeFraction_digits (f : FractionDigits) :
    takeFraction ('.' :: f.digits) = some (f.nanos, []) := by
  have hspan : spanDigits 9 f.digits = (f.digits, []) := by
    have hend : ∀ c ∈ ([] : List Char).head?, c.isDigit = false := by simp
    have hread := spanDigits_append f.run.digits f.length_le (.inr hend)
    rwa [List.append_nil] at hread
  rw [takeFraction]
  unfold takeNanos
  rw [hspan]
  simp only [naturalOf?_of_digitRun f.run, Option.map_some]
  rfl

theorem timeOf?_clockText (c : ClockText) : timeOf? c.chars = some c.time := by
  cases c with
  | minutes hour minute =>
    have hclock := takeHourMinute_chars [] (show hour.val < 100 by omega)
      (show minute.val < 100 by omega)
    rw [List.append_nil] at hclock
    have hfull : takeFullTime (ClockText.minutes hour minute).chars = none := by
      unfold takeFullTime
      exact bind_of_eq hclock rfl
    have hshort : takeShortTime (ClockText.minutes hour minute).chars =
        some ((ClockText.minutes hour minute).time, []) := by
      unfold takeShortTime
      refine bind_of_eq hclock ?_
      exact bind_of_eq (TimeOfDay.of?_of_lt hour.isLt minute.isLt (by decide) nanosInSecond_pos
        ⟨rfl, rfl⟩) rfl
    unfold timeOf? whole
    rw [hfull, hshort]
    rfl
  | seconds hour minute second =>
    have hread := takeFullTime_parts (ClockText.seconds hour minute second).time [] hour.isLt
      minute.isLt second.isLt rfl nanosInSecond_pos ⟨rfl, rfl⟩
    rw [List.append_nil] at hread
    unfold timeOf? whole ClockText.chars
    rw [hread]
    rfl
  | fraction hour minute second f =>
    have hread := takeFullTime_parts (ClockText.fraction hour minute second f).time _ hour.isLt
      minute.isLt second.isLt (takeFraction_digits f) f.nanos_lt ⟨rfl, rfl⟩
    unfold timeOf? whole ClockText.chars
    rw [hread]
    rfl

/-! ## Cutting the text -/

/-- The characters of a written time of day, and of an offset behind its sign. -/
def ClockChar (c : Char) : Prop := c.isDigit = true ∨ c = ':' ∨ c = '.'

theorem clockChar_spec {c : Char} (h : ClockChar c) :
    isBlank c = false ∧ (c = '+' || c = '-') = false ∧ c ≠ 'Z' := by
  rcases h with hdigit | rfl | rfl
  · refine ⟨isBlank_of_isDigit hdigit, ?_, ?_⟩
    · rw [Bool.eq_false_iff]
      intro hsign
      simp only [Bool.or_eq_true, decide_eq_true_eq] at hsign
      rcases hsign with rfl | rfl <;> revert hdigit <;> decide
    · rintro rfl
      revert hdigit
      decide
  · decide
  · decide

theorem clockChar_paddedDigits (width n : Nat) : ∀ c ∈ paddedDigits width n, ClockChar c :=
  fun c hc => .inl ((digitRun_paddedDigits width n).digits c hc)

theorem clockChar_chars (c : ClockText) : ∀ d ∈ c.chars, ClockChar d := by
  have hcolon : ClockChar ':' := .inr (.inl rfl)
  cases c with
  | minutes =>
    simp only [ClockText.chars, List.forall_mem_append, List.forall_mem_cons]
    exact ⟨clockChar_paddedDigits _ _, hcolon, clockChar_paddedDigits _ _⟩
  | seconds =>
    simp only [ClockText.chars, List.forall_mem_append, List.forall_mem_cons]
    exact ⟨clockChar_paddedDigits _ _, hcolon, clockChar_paddedDigits _ _, hcolon,
      clockChar_paddedDigits _ _⟩
  | fraction _ _ _ f =>
    simp only [ClockText.chars, List.forall_mem_append, List.forall_mem_cons]
    exact ⟨clockChar_paddedDigits _ _, hcolon, clockChar_paddedDigits _ _, hcolon,
      clockChar_paddedDigits _ _, .inr (.inr rfl), fun d hd => .inl (f.run.digits d hd)⟩

section Split

variable {p : Char → Bool} {s : List Char}

theorem splitLast_append {c : Char} (hc : p c = true) (h : ∀ d ∈ s, p d = false)
    (before : List Char) : splitLast p (before ++ c :: s) = some (before, c :: s) := by
  have hreverse : (before ++ c :: s).reverse = s.reverse ++ c :: before.reverse := by simp
  have htail : ∀ d ∈ s.reverse, (!p d) = true := by
    intro d hd
    rw [h d (List.mem_reverse.1 hd)]
    rfl
  unfold splitLast
  simp only [hreverse, List.takeWhile_append_of_pos htail, List.dropWhile_append_of_pos htail,
    List.takeWhile_cons, List.dropWhile_cons, hc]
  simp

theorem splitLast_eq_none (h : ∀ d ∈ s, p d = false) : splitLast p s = none := by
  have hall : ∀ d ∈ s.reverse, (!p d) = true := by
    intro d hd
    rw [h d (List.mem_reverse.1 hd)]
    rfl
  have hdrop : s.reverse.dropWhile (fun d => !p d) = [] := List.dropWhile_eq_nil_iff.2 hall
  unfold splitLast
  simp only [hdrop]

end Split

/-! ## Offsets -/

theorem readOffsetSeconds_chars (east : Bool) (hours : Fin 19) (minutes : Fin 60) (colon : Bool) :
    readOffsetSeconds (OffsetText.signed east hours minutes colon).chars =
      some (OffsetText.signed east hours minutes colon).seconds := by
  have hkeep : ∀ n, (paddedDigits 2 n).filter (· ≠ ':') = paddedDigits 2 n :=
    fun n => filter_ne_of_not_mem ((digitRun_paddedDigits 2 n).not_mem (by decide))
  have hcolon : (if colon then [':'] else []).filter (· ≠ ':') = ([] : List Char) := by
    cases colon <;> rfl
  have hdigits : (paddedDigits 2 hours ++ ((if colon then [':'] else []) ++
      paddedDigits 2 minutes)).filter (· ≠ ':') =
        paddedDigits 2 hours ++ paddedDigits 2 minutes := by
    rw [List.filter_append, List.filter_append, hkeep, hkeep, hcolon, List.nil_append]
  have hhours := naturalOf?_paddedDigits 2 hours
  have hminutes := naturalOf?_paddedDigits 2 minutes
  have hlimits : hours.val ≤ 18 ∧ minutes.val ≤ 59 := by omega
  unfold OffsetText.chars
  rw [readOffsetSeconds, hdigits]
  obtain ⟨a, b, hh⟩ := exists_paddedDigits_two (show hours.val < 100 by omega)
  obtain ⟨c, d, hm⟩ := exists_paddedDigits_two (show minutes.val < 100 by omega)
  rw [hh] at hhours ⊢
  rw [hm] at hminutes ⊢
  simp only [List.cons_append, List.nil_append, hhours, hminutes, if_pos hlimits]
  cases east <;> rfl

/-- Behind its first character an offset has digits and at most a colon. -/
theorem OffsetText.chars_cases (o : OffsetText) :
    o = universal ∨ ∃ sign rest, (sign = '+' ∨ sign = '-') ∧ (∀ d ∈ rest, ClockChar d) ∧
      o.chars = sign :: rest ∧ readOffsetSeconds (sign :: rest) = some o.seconds := by
  cases o with
  | universal => exact .inl rfl
  | signed east hours minutes colon =>
    refine .inr ⟨_, _, ?_, ?_, rfl, readOffsetSeconds_chars east hours minutes colon⟩
    · cases east
      · exact .inr rfl
      · exact .inl rfl
    · simp only [List.forall_mem_append]
      refine ⟨clockChar_paddedDigits _ _, ?_, clockChar_paddedDigits _ _⟩
      cases colon
      · simp
      · exact List.forall_mem_singleton.2 (.inr (.inl rfl))

/-- A step of whole seconds goes around midnight and keeps the fraction. -/
theorem TimeOfDay.shift_spec {t : TimeOfDay} (h : t.nano < nanosInSecond) (seconds : Int) :
    ((t.shift seconds).second : Int) = (t.second + seconds) % secondsInDay ∧
      (t.shift seconds).nano = t.nano := by
  have hsecond := t.second_lt
  have hday : (secondsInDay : Int) = 86400 := rfl
  unfold shift
  by_cases hzero : seconds = 0
  · rw [if_pos hzero, hzero, hday]
    unfold secondsInDay at hsecond
    omega
  · have hstart : ¬ (nanosInSecond ≤ t.nano ∧ seconds < 0) := by omega
    rw [if_neg hzero]
    simp only [if_neg hstart, hday]
    exact ⟨by omega, Nat.mod_eq_of_lt h⟩

/-! ## Reading the whole text -/

variable (c : ClockText) (o : OffsetText)

theorem not_blank_text : ∀ d ∈ c.chars ++ o.chars, isBlank d = false := by
  refine List.forall_mem_append.2 ⟨fun d hd => (clockChar_spec (clockChar_chars c d hd)).1, ?_⟩
  rcases o.chars_cases with rfl | ⟨sign, rest, hsign, hrest, hchars, -⟩
  · exact List.forall_mem_singleton.2 (by decide)
  · rw [hchars]
    refine List.forall_mem_cons.2 ⟨?_, fun d hd => (clockChar_spec (hrest d hd)).1⟩
    rcases hsign with rfl | rfl <;> decide

theorem splitLast_text :
    (splitLast (fun c => c = '+' || c = '-') (c.chars ++ o.chars) <|>
      splitLast (· = 'Z') (c.chars ++ o.chars)) = some (c.chars, o.chars) := by
  have hclock := fun d hd => clockChar_spec (clockChar_chars c d hd)
  rcases o.chars_cases with rfl | ⟨sign, rest, hsign, hrest, hchars, -⟩
  · have hnone : splitLast (fun c => c = '+' || c = '-') (c.chars ++ ['Z']) = none :=
      splitLast_eq_none (List.forall_mem_append.2 ⟨fun d hd => (hclock d hd).2.1, by simp⟩)
    show (splitLast _ (c.chars ++ ['Z']) <|> splitLast _ (c.chars ++ ['Z'])) = _
    rw [hnone]
    exact splitLast_append (by decide) (by simp) c.chars
  · rw [hchars, splitLast_append (by rcases hsign with rfl | rfl <;> decide)
      (fun d hd => (clockChar_spec (hrest d hd)).2.1)]
    rfl

theorem readOffsetTime_text :
    readOffsetTime (c.chars ++ o.chars) = some (c.time.shift (-o.seconds)) := by
  have htime : readTime c.chars = some c.time := by
    unfold readTime
    rw [trim_eq_self fun d hd => (clockChar_spec (clockChar_chars c d hd)).1, timeOf?_clockText]
  have hseconds : (if o.chars = ['Z'] then some 0 else readOffsetSeconds o.chars) =
      some o.seconds := by
    rcases o.chars_cases with rfl | ⟨sign, rest, hsign, -, hchars, hread⟩
    · exact if_pos rfl
    · rw [hchars, hread]
      refine if_neg fun hz => ?_
      rw [(List.cons.inj hz).1] at hsign
      revert hsign
      decide
  unfold readOffsetTime
  simp only [trim_eq_self (not_blank_text c o)]
  refine bind_of_eq (splitLast_text c o) ?_
  refine bind_of_eq htime ?_
  by_cases hz : o.chars = ['Z']
  · rw [if_pos hz] at hseconds
    exact (if_pos hz).trans (bind_of_eq hseconds rfl)
  · rw [if_neg hz] at hseconds
    exact (if_neg hz).trans (bind_of_eq hseconds rfl)

/-- The second of the day of universal time that a text stands for. -/
def ClockText.universalSecond (c : ClockText) (o : OffsetText) : Int :=
  (c.second - o.seconds) % secondsInDay

theorem shift_universalSecond :
    ((c.time.shift (-o.seconds)).second : Int) = c.universalSecond o ∧
      (c.time.shift (-o.seconds)).nano = c.nano := TimeOfDay.shift_spec c.nano_lt (-o.seconds)

theorem TimeOfDay.compare_eq_iff {t u : TimeOfDay} :
    t.compare u = .eq ↔ t.second = u.second ∧ t.nano = u.nano := by
  unfold TimeOfDay.compare
  rw [Ordering.then_eq_eq, Nat.compare_eq_eq, Nat.compare_eq_eq]

end Calendar

/-- **Times of day with an offset are normalized to universal time.** A time of day written to the
minute, to the second or with one to nine digits of a fraction, and behind it an offset of at most
18 hours and 59 minutes, is read as that time less the offset, around midnight if need be, with
every digit of the fraction; with `Z` it is read, and stands for itself, as it is. The values that
the filters of a column of such times compare are equal exactly if both texts, with an offset or
with `Z`, stand for one second and one nanosecond of the day of universal time. -/
theorem Calendar.readOffsetTime_normalized (c : ClockText) (o : OffsetText) :
    (∃ t, readOffsetTime (c.chars ++ o.chars) = some t ∧
      (t.second : Int) = c.universalSecond o ∧ t.nano = c.nano) ∧
    readOffsetTime (c.chars ++ ['Z']) = some c.time ∧
    c.universalSecond .universal = c.second ∧
    ∀ (c' : ClockText) (o' : OffsetText), ∃ a b,
      Kind.offsetTime.read? (String.ofList (c.chars ++ o.chars)) = some a ∧
      Kind.offsetTime.read? (String.ofList (c'.chars ++ o'.chars)) = some b ∧
      (a.sqlEq b = true ↔ c.universalSecond o = c'.universalSecond o' ∧ c.nano = c'.nano) := by
  have hread : ∀ (c : ClockText) (o : OffsetText),
      Kind.offsetTime.read? (String.ofList (c.chars ++ o.chars)) =
        some (.time (c.time.shift (-o.seconds))) := by
    intro c o
    show (readOffsetTime (trim (String.ofList (c.chars ++ o.chars)).toList)).map Value.time = _
    rw [String.toList_ofList, trim_eq_self (not_blank_text c o), readOffsetTime_text]
    rfl
  refine ⟨⟨_, readOffsetTime_text c o, shift_universalSecond c o⟩, ?_, ?_, ?_⟩
  · exact readOffsetTime_text c .universal
  · exact (shift_universalSecond c .universal).1.symm
  · intro c' o'
    obtain ⟨hsecond, hnano⟩ := shift_universalSecond c o
    obtain ⟨hsecond', hnano'⟩ := shift_universalSecond c' o'
    refine ⟨_, _, hread c o, hread c' o', ?_⟩
    unfold Value.sqlEq
    rw [beq_iff_eq, Value.compare?, Option.some_inj, TimeOfDay.compare_eq_iff, hnano, hnano',
      ← hsecond, ← hsecond', Int.natCast_inj]

end DataGrid
