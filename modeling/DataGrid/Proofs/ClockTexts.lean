import DataGrid.Calendar.Text
import DataGrid.Proofs.PaddedDigits

/-!
# Reading written dates and times

The readers of layouts take back what is written: a date with a year of four digits, a time of day
with its fraction, and a moment whose offset is a number of whole minutes. A leap second is shown
as second 60, which a reader makes a leap second of only at the end of a minute; a time of day that
the readers give has no other one.
-/

namespace DataGrid

open Text Number Calendar

namespace Calendar

/-! ## Parts that can be written -/

/-- A leap second is the last second of a minute. -/
def TimeOfDay.Regular (t : TimeOfDay) : Prop := t.nano < nanosInSecond ∨ t.second % 60 = 59

/-- The start of the second. -/
def TimeOfDay.toSecond (t : TimeOfDay) : TimeOfDay :=
  ⟨t.second, t.nano / nanosInSecond * nanosInSecond, t.second_lt,
    Nat.lt_of_le_of_lt (Nat.div_mul_le_self ..) t.nano_lt⟩

def LocalDateTime.toSecond (m : LocalDateTime) : LocalDateTime := ⟨m.date, m.time.toSecond⟩

/-- Years that are written with four digits and no sign. -/
def Date.FourDigits (d : Date) : Prop := 0 ≤ d.year ∧ d.year ≤ 9999

/-- Offsets of whole minutes within a day. -/
def OffsetInMinutes (offset : Int) : Prop := offset % 60 = 0 ∧ offset.natAbs < secondsInDay

theorem nanosInSecond_pos : 0 < nanosInSecond := Nat.succ_pos 999999999

theorem Date.month_bounds (d : Date) : 1 ≤ d.month ∧ d.month ≤ 12 := by
  have hdays : 0 < daysInMonth d.year d.month := Nat.lt_of_lt_of_le d.day_pos d.day_le
  unfold daysInMonth at hdays
  split at hdays <;> omega

theorem Date.day_le_31 (d : Date) : d.day ≤ 31 := by
  refine Nat.le_trans d.day_le ?_
  unfold daysInMonth
  repeat' split
  all_goals decide

theorem Date.of?_parts {d : Date} (h : d.FourDigits) : Date.of? d.year d.month d.day = some d := by
  have hyear : leastYear ≤ d.year ∧ d.year ≤ greatestYear := by
    obtain ⟨hleast, hgreatest⟩ := h
    unfold leastYear greatestYear
    omega
  exact dif_pos ⟨hyear, d.day_pos, d.day_le⟩

/-- A regular time is made again of the parts that are shown, with any fraction. -/
theorem TimeOfDay.of?_parts {t : TimeOfDay} (h : t.Regular) {fraction : Nat}
    (hfraction : fraction < nanosInSecond) :
    ∃ u, TimeOfDay.of? t.hour t.minute t.secondOfMinute fraction = some u ∧
      u.second = t.second ∧ u.nano = t.nano / nanosInSecond * nanosInSecond + fraction := by
  have hsecond := t.second_lt
  have hnano := t.nano_lt
  unfold Regular at h
  unfold secondsInDay at hsecond
  unfold nanosInSecond at *
  unfold of? hour minute secondOfMinute nanosInSecond
  rw [dif_pos (by omega)]
  by_cases hleap : t.second % 60 + t.nano / 1000000000 = 60
  · rw [dif_pos hleap]
    exact ⟨_, rfl, by simp only; omega, by simp only; omega⟩
  · rw [dif_neg hleap]
    exact ⟨_, rfl, by simp only; omega, by simp only; omega⟩

theorem TimeOfDay.ext_parts {t u : TimeOfDay} (hsecond : u.second = t.second)
    (hnano : u.nano = t.nano) : u = t := by
  cases t
  cases u
  simp only at hsecond hnano
  subst hsecond hnano
  rfl

theorem TimeOfDay.of?_fraction {t : TimeOfDay} (h : t.Regular) :
    TimeOfDay.of? t.hour t.minute t.secondOfMinute t.fraction = some t := by
  have hfraction : t.fraction < nanosInSecond := Nat.mod_lt t.nano nanosInSecond_pos
  obtain ⟨u, hu, hsecond, hnano⟩ := of?_parts h hfraction
  have htime : u = t := ext_parts hsecond (hnano.trans (Nat.div_add_mod' t.nano nanosInSecond))
  rw [hu, htime]

theorem TimeOfDay.of?_zero {t : TimeOfDay} (h : t.Regular) :
    TimeOfDay.of? t.hour t.minute t.secondOfMinute 0 = some t.toSecond := by
  obtain ⟨u, hu, hsecond, hnano⟩ := of?_parts h nanosInSecond_pos
  have htime : u = t.toSecond := ext_parts hsecond (hnano.trans (Nat.add_zero _))
  rw [hu, htime]

/-! ## Reading what was written -/

/-- A reader of several parts goes on behind a part that it has read. -/
theorem bind_of_eq {α β : Type} {x : Option α} {a : α} {f : α → Option β} {r : Option β}
    (h : x = some a) (hrest : f a = r) : (x >>= f) = r := by
  rw [h]
  exact hrest

section Parts

variable (rest : List Char)

theorem takeNanos_paddedDigits {width n : Nat} (hwidth : 0 < width ∧ width ≤ 9)
    (hn : n < tenTo width) (hrest : ∀ c ∈ rest.head?, c.isDigit = false) :
    takeNanos (paddedDigits width n ++ rest) = some (n * tenTo (9 - width), rest) := by
  have hlength := length_paddedDigits hwidth.1 hn
  have hend : rest.dropWhile Char.isDigit = rest := by
    cases rest with
    | nil => rfl
    | cons c rest => exact List.dropWhile_cons_of_neg (by rw [hrest c rfl]; decide)
  unfold takeNanos
  rw [spanDigits_append (digitRun_paddedDigits width n).digits
    (Nat.le_trans (Nat.le_of_eq hlength) hwidth.2) (.inr hrest)]
  simp only [naturalOf?_paddedDigits, Option.map_some, hlength, hend]

/-- A fraction is read back with all its digits, unless more digits or a point follow. -/
theorem takeFraction_fractionChars {n : Nat} (hn : n < nanosInSecond)
    (hrest : ∀ c ∈ rest.head?, c.isDigit = false ∧ c ≠ '.') :
    takeFraction (fractionChars n ++ rest) = some (n, rest) := by
  have hdigit : ∀ c ∈ rest.head?, c.isDigit = false := fun c hc => (hrest c hc).1
  have hlimit : n < 1000000000 := hn
  unfold fractionChars
  split
  · rename_i hzero
    rw [hzero, List.nil_append]
    unfold takeFraction
    split
    · exact absurd rfl (hrest '.' rfl).2
    · rfl
  · split
    · rename_i hmillis
      rw [List.cons_append, takeFraction]
      rw [takeNanos_paddedDigits rest (by decide) (show _ < 1000 by omega) hdigit]
      exact congrArg (fun m => some (m, rest)) (Nat.div_mul_cancel (Nat.dvd_of_mod_eq_zero hmillis))
    · split
      · rename_i hmicros
        rw [List.cons_append, takeFraction]
        rw [takeNanos_paddedDigits rest (by decide) (show _ < 1000000 by omega) hdigit]
        exact congrArg (fun m => some (m, rest))
          (Nat.div_mul_cancel (Nat.dvd_of_mod_eq_zero hmicros))
      · rw [List.cons_append, takeFraction]
        rw [takeNanos_paddedDigits rest (by decide) hlimit hdigit]
        exact congrArg (fun m => some (m, rest)) (Nat.mul_one n)

theorem expect_cons (c : Char) : expect c (c :: rest) = some rest := if_pos rfl

theorem yearChars_of_fourDigits {d : Date} (h : d.FourDigits) :
    yearChars d.year = paddedDigits 4 d.year.toNat := if_pos h

theorem takeYearFirst_chars {d : Date} (h : d.FourDigits) :
    takeYearFirst '-' (d.chars ++ rest) = some (d, rest) := by
  have hyear : d.year.toNat < 10000 ∧ (d.year.toNat : Int) = d.year := by
    obtain ⟨hleast, hgreatest⟩ := h
    omega
  have hmonth : d.month < 100 := by
    have := d.month_bounds
    omega
  have hday : d.day < 100 := by
    have := d.day_le_31
    omega
  unfold takeYearFirst Date.chars
  rw [yearChars_of_fourDigits h, List.append_assoc, List.cons_append, List.append_assoc,
    List.cons_append]
  refine bind_of_eq (takeYear_paddedDigits _ hyear.1) ?_
  refine bind_of_eq (expect_cons _ _) ?_
  refine bind_of_eq (takeNumber_paddedDigits _ hmonth) ?_
  refine bind_of_eq (expect_cons _ _) ?_
  refine bind_of_eq (takeNumber_paddedDigits _ hday) ?_
  rw [hyear.2]
  exact bind_of_eq (Date.of?_parts h) rfl

/-- Hour, minute and second are shown with at most two digits each. -/
theorem TimeOfDay.parts_lt (t : TimeOfDay) :
    t.hour < 100 ∧ t.minute < 100 ∧ t.secondOfMinute < 100 := by
  have hsecond := t.second_lt
  have hnano := t.nano_lt
  unfold secondsInDay at hsecond
  unfold nanosInSecond at hnano
  unfold hour minute secondOfMinute nanosInSecond
  omega

theorem takeHourMinute_chars {hour minute : Nat} (hhour : hour < 100) (hminute : minute < 100) :
    takeHourMinute (paddedDigits 2 hour ++ ':' :: (paddedDigits 2 minute ++ rest)) =
      some ((hour, minute), rest) := by
  refine bind_of_eq (takeNumber_paddedDigits _ hhour) ?_
  refine bind_of_eq (expect_cons _ _) ?_
  exact bind_of_eq (takeNumber_paddedDigits _ hminute) rfl

theorem takeFullTime_clockChars {t u : TimeOfDay} {nano : Nat}
    (hfraction : takeFraction rest = some (nano, []))
    (htime : TimeOfDay.of? t.hour t.minute t.secondOfMinute nano = some u) :
    takeFullTime (t.clockChars ++ rest) = some (u, []) := by
  obtain ⟨hhour, hminute, hsecond⟩ := t.parts_lt
  unfold takeFullTime TimeOfDay.clockChars
  simp only [List.append_assoc, List.cons_append]
  refine bind_of_eq (takeHourMinute_chars _ hhour hminute) ?_
  refine bind_of_eq (expect_cons _ _) ?_
  refine bind_of_eq (takeNumber_paddedDigits _ hsecond) ?_
  refine bind_of_eq hfraction ?_
  exact bind_of_eq htime rfl

end Parts

theorem timeOf?_chars {t : TimeOfDay} (h : t.Regular) : timeOf? t.chars = some t := by
  have hfraction : takeFraction (fractionChars t.fraction) = some (t.fraction, []) := by
    have hread := takeFraction_fractionChars [] (Nat.mod_lt t.nano nanosInSecond_pos) (by simp)
    rwa [List.append_nil] at hread
  unfold timeOf? whole TimeOfDay.chars
  rw [takeFullTime_clockChars _ hfraction (TimeOfDay.of?_fraction h)]
  rfl

theorem timeOf?_clockChars {t : TimeOfDay} (h : t.Regular) :
    timeOf? t.clockChars = some t.toSecond := by
  have hread := takeFullTime_clockChars [] rfl (TimeOfDay.of?_zero h)
  rw [List.append_nil] at hread
  unfold timeOf? whole
  rw [hread]
  rfl

theorem dateOf?_chars {d : Date} (h : d.FourDigits) : dateOf? d.chars = some d := by
  have hread := takeYearFirst_chars [] h
  rw [List.append_nil] at hread
  unfold dateOf? whole
  rw [hread]
  rfl

theorem dateTimeOf?_clockChars {m : LocalDateTime} (hdate : m.date.FourDigits)
    (htime : m.time.Regular) : dateTimeOf? m.clockChars = some m.toSecond := by
  have hclock : ((expect 'T' ('T' :: m.time.clockChars)).bind timeOf? <|>
      timeOf? ('T' :: m.time.clockChars)) = some m.time.toSecond := by
    rw [expect_cons, Option.bind_some, timeOf?_clockChars htime]
    rfl
  refine bind_of_eq (takeYearFirst_chars _ hdate) ?_
  exact bind_of_eq hclock rfl

/-! ## Offsets -/

theorem takeClockOffset_chars {hours minutes : Nat} (hhours : hours < 24)
    (hminutes : minutes < 60) :
    takeClockOffset (paddedDigits 2 hours ++ ':' :: paddedDigits 2 minutes) =
      some (((hours * 3600 + minutes * 60 : Nat) : Int), []) := by
  have hlast := takeTwoDigits_paddedDigits [] (show minutes < 100 by omega)
  rw [List.append_nil] at hlast
  refine bind_of_eq (takeTwoDigits_paddedDigits _ (show hours < 100 by omega)) ?_
  refine bind_of_eq (expect_cons _ _) ?_
  refine bind_of_eq hlast ?_
  exact if_pos ⟨hminutes, hhours⟩

theorem takeOffset_offsetChars {offset : Int} (h : OffsetInMinutes offset) :
    takeOffset (offsetChars .minutes offset) = some (offset, []) := by
  obtain ⟨hwhole, hday⟩ := h
  unfold secondsInDay at hday
  -- An offset of whole minutes is not rounded.
  have hhours : (offset.natAbs + 30) / 3600 < 24 := by omega
  have hminutes : (offset.natAbs + 30) / 60 % 60 < 60 := Nat.mod_lt _ (by decide)
  have hread := takeClockOffset_chars hhours hminutes
  have hsize : (offset.natAbs + 30) / 3600 * 3600 + (offset.natAbs + 30) / 60 % 60 * 60 =
      offset.natAbs := by omega
  rw [hsize] at hread
  unfold offsetChars
  by_cases hsign : offset < 0
  · have hvalue : -(offset.natAbs : Int) = offset := by omega
    simp only [if_pos hsign, List.cons_append]
    rw [takeOffset, if_neg (by decide), if_neg (by decide), if_pos (.inl rfl), hread,
      Option.map_some]
    exact congrArg (fun n => some (n, [])) hvalue
  · have hvalue : (offset.natAbs : Int) = offset := by omega
    simp only [if_neg hsign, List.cons_append]
    rw [takeOffset, if_neg (by decide), if_pos rfl, hread, hvalue]

/-! ## Moments with an offset -/

theorem skipTimeMark_cons (rest : List Char) : skipTimeMark ('T' :: rest) = some rest := by
  unfold skipTimeMark
  exact if_pos (.inl rfl)

theorem OffsetDateTime.chars_eq {m : OffsetDateTime} (hdate : m.wall.date.FourDigits) :
    m.chars = paddedDigits 4 m.wall.date.year.toNat ++ '-' :: (paddedDigits 2 m.wall.date.month ++
      '-' :: (paddedDigits 2 m.wall.date.day ++ 'T' :: (paddedDigits 2 m.wall.time.hour ++
        ':' :: (paddedDigits 2 m.wall.time.minute ++ ':' ::
          (paddedDigits 2 m.wall.time.secondOfMinute ++ (fractionChars m.wall.time.fraction ++
            offsetChars .minutes m.offset)))))) := by
  unfold OffsetDateTime.chars LocalDateTime.chars Date.chars TimeOfDay.chars TimeOfDay.clockChars
  rw [yearChars_of_fourDigits hdate]
  simp only [List.append_assoc, List.cons_append]

theorem offsetDateTimeOf?_chars {m : OffsetDateTime} (hdate : m.wall.date.FourDigits)
    (htime : m.wall.time.Regular) (hoffset : OffsetInMinutes m.offset) :
    offsetDateTimeOf? m.chars = some m := by
  have hyear : m.wall.date.year.toNat < 10000 ∧
      (m.wall.date.year.toNat : Int) = m.wall.date.year := by
    obtain ⟨hleast, hgreatest⟩ := hdate
    omega
  have hmonth : m.wall.date.month < 100 := by
    have := m.wall.date.month_bounds
    omega
  have hday : m.wall.date.day < 100 := by
    have := m.wall.date.day_le_31
    omega
  obtain ⟨hhour, hminute, hsecond⟩ := m.wall.time.parts_lt
  have hsign : ∀ c ∈ (offsetChars .minutes m.offset).head?, c.isDigit = false ∧ c ≠ '.' := by
    unfold offsetChars
    simp only [List.cons_append, List.head?_cons, Option.mem_some_iff]
    rintro c rfl
    split <;> decide
  have hlast : whole takeOffset (offsetChars .minutes m.offset) = some m.offset := by
    unfold whole
    rw [takeOffset_offsetChars hoffset]
  have hfraction : m.wall.time.fraction < nanosInSecond := Nat.mod_lt _ nanosInSecond_pos
  rw [OffsetDateTime.chars_eq hdate]
  unfold offsetDateTimeOf?
  refine bind_of_eq (takeFourDigits_paddedDigits _ hyear.1) ?_
  refine bind_of_eq (expect_cons _ _) ?_
  refine bind_of_eq (takeTwoDigits_paddedDigits _ hmonth) ?_
  refine bind_of_eq (expect_cons _ _) ?_
  refine bind_of_eq (takeTwoDigits_paddedDigits _ hday) ?_
  refine bind_of_eq (skipTimeMark_cons _) ?_
  refine bind_of_eq (takeTwoDigits_paddedDigits _ hhour) ?_
  refine bind_of_eq (expect_cons _ _) ?_
  refine bind_of_eq (takeTwoDigits_paddedDigits _ hminute) ?_
  refine bind_of_eq (expect_cons _ _) ?_
  refine bind_of_eq (takeTwoDigits_paddedDigits _ hsecond) ?_
  refine bind_of_eq (takeFraction_fractionChars _ hfraction hsign) ?_
  refine bind_of_eq hlast ?_
  rw [hyear.2]
  refine bind_of_eq (Date.of?_parts hdate) ?_
  exact bind_of_eq (TimeOfDay.of?_fraction htime) rfl

end Calendar

end DataGrid
