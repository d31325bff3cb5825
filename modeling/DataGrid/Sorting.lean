import DataGrid.Path
import DataGrid.Text.Blank

/-!
# Sorting

A direction, the cycle of directions that repeated requests go through, and the
order clauses of a query. An orderer chain is a primary expression that follows
the live direction and tie-breakers with directions of their own.
-/

namespace DataGrid

open Text

/-- The direction of an order clause. -/
inductive Direction where
  | ascending | descending
  deriving DecidableEq, Repr

namespace Direction

def reverse : Direction → Direction
  | ascending => descending
  | descending => ascending

def name : Direction → String
  | ascending => "ascending"
  | descending => "descending"

def shortName : Direction → String
  | ascending => "asc"
  | descending => "desc"

/-- The direction of an exact long or short name. -/
def ofName? (name : String) : Option Direction :=
  if name = "asc" ∨ name = "ascending" then some ascending
  else if name = "desc" ∨ name = "descending" then some descending
  else none

/-- A text that names no direction, without its outer blanks and in lower case. -/
structure Unknown where
  text : String
  deriving DecidableEq, Repr

def Unknown.message (e : Unknown) : String := s!"Unknown sort direction: {e.text}"

/-- The direction of a name in any case, with blanks around it. -/
def ofText (text : String) : Except Unknown Direction :=
  let name := String.ofList (lowered (trim text.toList))
  match ofName? name with
  | some d => .ok d
  | none => .error ⟨name⟩

/-- The ordering of a comparison in this direction. -/
def apply (d : Direction) (o : Ordering) : Ordering :=
  match d with
  | ascending => o
  | descending => o.swap

end Direction

/-- How repeated sort requests for one column go on. -/
inductive SortMode where
  /-- Unsorted, ascending, descending, and from the start again. -/
  | threeState
  /-- Ascending and descending only. -/
  | twoState
  deriving DecidableEq, Repr, Inhabited

namespace SortMode

def name : SortMode → String
  | threeState => "three_state"
  | twoState => "two_state"

def ofName? (name : String) : Option SortMode :=
  if name = "three_state" then some threeState
  else if name = "two_state" then some twoState
  else none

/-- The direction after the current one. -/
def next (mode : SortMode) : Option Direction → Option Direction
  | none => some .ascending
  | some .ascending => some .descending
  | some .descending =>
    match mode with
    | threeState => none
    | twoState => some .ascending

end SortMode

/-- One clause of a query's order. -/
structure OrderClause where
  path : Path
  direction : Direction
  deriving DecidableEq, Repr

def OrderClause.render (c : OrderClause) : String :=
  match c.direction with
  | .ascending => s!"{c.path.render} ASC"
  | .descending => s!"{c.path.render} DESC"

/-- A tie-breaker with its own direction. -/
structure ThenBy where
  expression : String
  direction : Direction
  deriving DecidableEq, Repr

/-- A primary expression and its tie-breakers. -/
structure OrdererChain where
  primary : Option String := none
  thenBy : List ThenBy := []
  deriving DecidableEq, Repr, Inhabited

namespace OrdererChain

def length (chain : OrdererChain) : Nat := chain.primary.toList.length + chain.thenBy.length

def isEmpty (chain : OrdererChain) : Bool := chain.length == 0

/-- The clauses of the chain, the primary one first; expressions that are no paths are left
out. -/
def clauses (chain : OrdererChain) (direction : Direction) : List OrderClause :=
  let primary := chain.primary.toList.map fun e => (e, direction)
  let thenBy := chain.thenBy.map fun t => (t.expression, t.direction)
  (primary ++ thenBy).filterMap fun (expression, direction) =>
    (Path.parse? expression).map fun path => ⟨path, direction⟩

end OrdererChain

end DataGrid
