/-!
# Readers of the head of a text

A reader takes one part at the head of a text and gives the part and what follows.
-/

namespace DataGrid.Text

/-- A reader of one part at the head of a text. -/
abbrev Take (α : Type) := List Char → Option (α × List Char)

/-- The text behind the character `c`. -/
def expect (c : Char) : List Char → Option (List Char)
  | [] => none
  | head :: rest => if head = c then some rest else none

/-- The text behind a word. -/
def expectWord : (word : List Char) → List Char → Option (List Char)
  | [], s => some s
  | c :: word, s => (expect c s).bind (expectWord word)

/-- The part that makes up a whole text. -/
def whole {α : Type} (take : Take α) (s : List Char) : Option α :=
  match take s with
  | some (a, []) => some a
  | _ => none

end DataGrid.Text
