import DataGrid.Grid
import DataGrid.Json.Pointer
import DataGrid.Json.Writer

/-!
# Showing a request

A view is shown as a table for reading or as a JSON document. The table has a
heading with the titles of the columns that are not hidden, a line for each row, the
number of rows, and the totals if there are any. A total whose text ends the program
leaves of the table what stands in front of the totals, and nothing of the document.
-/

namespace DataGrid

open Text

/-- The part of a row that an expression leads to, by its pieces between dots and slashes. -/
def Record.cell? (r : Record) (expression : String) : Option Json :=
  Json.atTokens? (.object r) ((pieces '.' expression.toList).flatMap (pieces '/'))

/-- The text of a cell: a dash for nothing, a string as it is, and JSON for the rest. -/
def cellText : Option Json → List Char
  | none => ['-']
  | some .null => ['-']
  | some (.string s) => s.toList
  | some v => v.compact.toList

/-- What has been shown, and why the program ended before the rest, if it did. -/
structure Shown where
  text : String
  crash : Option Crash := none
  deriving DecidableEq, Repr

namespace View

/-- The least width of a column. -/
def columnWidth : Nat := 16

/-- The least width of the label of a total. -/
def labelWidth : Nat := 10

private def fill (width : Nat) (s : List Char) : List Char := padEnd ' ' width s

/-- Cells with one blank between them. -/
private def line (cells : List (List Char)) : List Char :=
  joined ' ' (cells.map (fill columnWidth))

private def totalLine (t : RenderedTotal) : List Char :=
  joined ' ' [fill columnWidth t.column.toList, fill labelWidth t.label.toList, t.text.toList]

/-- The lines of the table in front of the totals. -/
def lines (v : View) (g : Grid) : List (List Char) :=
  let columns := g.columns.toList.filter fun c => !c.hidden
  let heading := line (columns.map (·.title.toList))
  let rule := List.replicate ((columnWidth + 1) * columns.length) '-'
  let rows := v.rows.map fun row =>
    line (columns.map fun c => cellText (c.expression.bind row.cell?))
  let count := digitsOf v.rows.length ++ " rows".toList
  heading :: rule :: rows ++ [[], count]

/-- The lines of the totals. -/
def totalLines (totals : List RenderedTotal) : List (List Char) :=
  if totals.isEmpty then [] else [] :: totals.map totalLine

/-- Lines as one text. -/
private def page (lines : List (List Char)) : String :=
  String.ofList (lines.flatMap (· ++ ['\n']))

/-- The table. Its rows are shown before the totals get their texts. -/
def table (v : View) (g : Grid) : Shown :=
  match g.renderedTotals with
  | .ok totals => ⟨page (v.lines g ++ totalLines totals), none⟩
  | .error cause => ⟨page (v.lines g), some cause⟩

/-- The JSON document of a request. -/
def toJson (v : View) (totals : List RenderedTotal) : Json :=
  .object [
    ("filter", (v.predicate.map fun p => Json.string p.render).getD .null),
    ("order", .array (v.order.map fun c => .string c.render)),
    ("rows", .array (v.rows.map .object)),
    ("totals", .array (totals.map fun t =>
      .object [("column", .string t.column), ("label", .string t.label),
        ("text", .string t.text)]))]

/-- The JSON document of a request as a text. -/
def document (v : View) (g : Grid) : Shown :=
  match g.renderedTotals with
  | .ok totals => ⟨(v.toJson totals).pretty ++ "\n", none⟩
  | .error cause => ⟨"", some cause⟩

end View

end DataGrid
