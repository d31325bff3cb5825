/-!
# Quoted text

A literal stands between single quotes, and a quote inside it is written twice.
-/

namespace DataGrid.Text

/-- The quote of a literal. -/
def quoteMark : Char := '\x27'

/-- The text with every quote written twice. -/
def doubleQuotes : List Char → List Char
  | [] => []
  | c :: rest =>
    if c = quoteMark then quoteMark :: quoteMark :: doubleQuotes rest else c :: doubleQuotes rest

/-- A literal whose body is `before`, the text with its quotes doubled, and `after`. -/
def quotedBetween (before after s : List Char) : List Char :=
  quoteMark :: before ++ doubleQuotes s ++ after ++ [quoteMark]

/-- The literal of a text. -/
def quoted (s : String) : String := String.ofList (quotedBetween [] [] s.toList)

end DataGrid.Text
