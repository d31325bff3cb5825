import DataGrid.Column
import DataGrid.Error

/-!
# The columns of a grid

Columns stand in the order in which they were added, and no name is added twice.
At most one of them is sorted by requests: sorting by a column makes it the only
sorted one, and a request for a column that cannot be sorted changes nothing.
-/

namespace DataGrid

/-- The columns of a grid in their order. -/
structure Columns where
  toList : List Column := []

namespace Columns

def length (cs : Columns) : Nat := cs.toList.length

def isEmpty (cs : Columns) : Bool := cs.toList.isEmpty

def names (cs : Columns) : List String := cs.toList.map (·.name)

/-- Whether a column has this name. -/
def contains (cs : Columns) (name : String) : Bool := cs.toList.any (·.name = name)

/-- The column of a name. -/
def get? (cs : Columns) (name : String) : Option Column := cs.toList.find? (·.name = name)

/-- The states that a calculation reads. -/
def states (cs : Columns) : List ColumnState := cs.toList.map (·.toColumnState)

/-- The columns with each one changed. -/
def map (f : Column → Column) (cs : Columns) : Columns := ⟨cs.toList.map f⟩

/-- The list with the first column of a name changed. -/
def modifyFirst (name : String) (f : Column → Column) : List Column → List Column
  | [] => []
  | c :: cs => if c.name = name then f c :: cs else c :: modifyFirst name f cs

/-- The columns with the column of a name changed. -/
def modify (cs : Columns) (name : String) (f : Column → Column) : Columns :=
  ⟨modifyFirst name f cs.toList⟩

/-- The first column with a live direction. -/
def sorted? (cs : Columns) : Option Column := cs.toList.find? (·.isSorted)

/-- The columns with one more at the end. Its initial direction becomes live unless a column is
sorted already. -/
def add (cs : Columns) (c : Column) : Except GridError Columns :=
  if cs.contains c.name then .error (.duplicateColumn c.name)
  else
    let c := match c.initialDirection with
      | some d => if cs.sorted?.isNone then c.setDirection (some d) else c
      | none => c
    .ok ⟨cs.toList ++ [c]⟩

/-- The columns with the column of a name as the only sorted one; without a direction no column
is sorted. -/
def sortBy (cs : Columns) (name : String) (d : Option Direction) : Except GridError Columns :=
  match cs.get? name with
  | none => .error (.unknownColumn name)
  | some c =>
    if c.sortEnabled then
      .ok (cs.map fun c => c.setDirection (if c.name = name then d else none))
    else .ok cs

/-- The columns without any computed total. -/
def clearTotals (cs : Columns) : Columns := cs.map (·.clearTotals)

end Columns

end DataGrid
