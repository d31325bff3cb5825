import DataGrid.Text.Pieces

/-!
# Field paths

An expression names a field by dots, from the root of a row down. Blanks around
the expression and around each segment do not count; a blank segment makes the
expression no path at all.
-/

namespace DataGrid

open Text

/-- A path from the root of a row to one of its fields. -/
structure Path where
  segments : List String
  deriving DecidableEq, Repr

namespace Path

/-- The segments of an expression, unless one of them is blank. -/
def segmentsOf? (expression : List Char) : Option (List (List Char)) :=
  let segments := (pieces '.' (trim expression)).map trim
  if segments.any (·.isEmpty) then none else some segments

/-- The path of an expression. -/
def parse? (expression : String) : Option Path :=
  (segmentsOf? expression.toList).map fun segments => ⟨segments.map String.ofList⟩

/-- The segments with dots between them. -/
def render (p : Path) : String := String.ofList (joined '.' (p.segments.map String.toList))

/-- The last segment. -/
def leaf (p : Path) : String := p.segments.getLastD ""

/-- The path without its last segment, if any remains. -/
def parent? (p : Path) : Option Path :=
  if p.segments.length < 2 then none else some ⟨p.segments.dropLast⟩

end Path

end DataGrid
