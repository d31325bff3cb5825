import DataGrid.Calendar.Date
import DataGrid.Calendar.TimeOfDay

/-!
# Moments

A `LocalDateTime` is a date and a time of day on some wall clock. An
`OffsetDateTime` adds how many seconds that clock is ahead of universal time, and
so names an instant; such moments are ordered by their instants alone.
-/

namespace DataGrid.Calendar

/-- A date and a time of day on a wall clock. -/
structure LocalDateTime where
  date : Date
  time : TimeOfDay
  deriving DecidableEq

namespace LocalDateTime

/-- Seconds from 1970-01-01T00:00:00 on the same clock. -/
def epochSecond (m : LocalDateTime) : Int :=
  m.date.dayNumber * secondsInDay + m.time.second

/-- The moment of an epoch second and the nanoseconds in it. -/
def ofEpochSecond (n : Int) (nano : Nat) (h : nano < 2 * nanosInSecond) : LocalDateTime :=
  ⟨Date.ofDayNumber (n / secondsInDay),
    ⟨(n % secondsInDay).toNat, nano, by simp only [secondsInDay]; omega, h⟩⟩

def compare (a b : LocalDateTime) : Ordering :=
  (Ord.compare a.epochSecond b.epochSecond).then (Ord.compare a.time.nano b.time.nano)

end LocalDateTime

/-- A moment on a clock that is `offset` seconds ahead of universal time. -/
structure OffsetDateTime where
  wall : LocalDateTime
  offset : Int
  deriving DecidableEq

namespace OffsetDateTime

/-- Seconds from 1970-01-01T00:00:00Z. -/
def epochSecond (m : OffsetDateTime) : Int := m.wall.epochSecond - m.offset

/-- The same instant on the clock of universal time. -/
def toUniversal (m : OffsetDateTime) : OffsetDateTime :=
  if m.offset = 0 then m
  else ⟨LocalDateTime.ofEpochSecond m.epochSecond m.wall.time.nano m.wall.time.nano_lt, 0⟩

/-- The order of the instants. -/
def compare (a b : OffsetDateTime) : Ordering :=
  (Ord.compare a.epochSecond b.epochSecond).then (Ord.compare a.wall.time.nano b.wall.time.nano)

end OffsetDateTime

end DataGrid.Calendar
