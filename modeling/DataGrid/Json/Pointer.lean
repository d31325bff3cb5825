import DataGrid.Json
import DataGrid.Text.Digits

/-!
# Pointers into JSON

A pointer names a part of a value by tokens: the name of a field, or the position of
an item without a leading zero. In a token, `~1` stands for a slash and `~0` for a
tilde.
-/

namespace DataGrid.Json

open Text

/-- A token without its escapes. -/
def unescapeToken : List Char → List Char
  | '~' :: '1' :: rest => '/' :: unescapeToken rest
  | '~' :: '0' :: rest => '~' :: unescapeToken rest
  | c :: rest => c :: unescapeToken rest
  | [] => []

/-- The position that a token denotes in a list. -/
def position? (token : List Char) : Option Nat :=
  match token with
  | '0' :: _ :: _ => none
  | _ => naturalOf? token

/-- The part of a value that the tokens lead to. -/
def atTokens? : Json → List (List Char) → Option Json
  | value, [] => some value
  | object fields, token :: rest =>
    (Record.get? fields (String.ofList (unescapeToken token))).bind (atTokens? · rest)
  | array items, token :: rest =>
    ((position? (unescapeToken token)).bind (items[·]?)).bind (atTokens? · rest)
  | _, _ :: _ => none

end DataGrid.Json
