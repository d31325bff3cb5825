/-!
# Crashes

Some steps can end the program where it stands, with neither an answer nor an error to hand on.
-/

namespace DataGrid

/-- Why the program ends where it stands. -/
inductive Crash where
  /-- A sort has come upon an order that contradicts itself. -/
  | orderViolation
  /-- A text is to be filled to more characters than any text can hold. -/
  | capacityOverflow
  /-- A number is to be written with more places than are counted. -/
  | placesOverflow
  deriving DecidableEq, Repr

def Crash.message : Crash → String
  | orderViolation =>
    "user-provided comparison function does not correctly implement a total order"
  | capacityOverflow => "capacity overflow"
  | placesOverflow => "Formatting argument out of range"

end DataGrid
