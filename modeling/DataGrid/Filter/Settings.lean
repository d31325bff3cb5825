import DataGrid.Column
import DataGrid.Text.Percent
import DataGrid.Text.Pieces

/-!
# The filter settings of a request

A request's filters can come from any source that tells the options of a column and
whether its initial filter applies. `Settings` is one: it carries filter options and the
names of columns whose initial filter is cleared. `ofQuery` reads both from a query string: entries between `&`, a key and
a value around the first `=`. The value of a filter entry is the column, the code
of the operator and the filter text, with `__` between them. Entries with other
keys and malformed entries are skipped.
-/

namespace DataGrid

open Text

/-- Where a request's filters come from. -/
structure FilterSource where
  /-- Whether a column's initial filter applies. -/
  isInitial : ColumnState → Bool
  /-- The options of a column by its name, in the order of the request. -/
  optionsFor : String → List FilterOption

/-- What a query string says about filters. -/
structure Settings where
  /-- The options in the order of the request. -/
  options : List FilterOption := []
  /-- Columns whose initial filter is cleared. -/
  cleared : List String := []
  deriving DecidableEq, Repr

namespace FilterOption

/-- The value of a filter entry: column, code and text with `__` between them. -/
def toQueryValue (o : FilterOption) : String :=
  o.column ++ "__" ++ o.operator.code ++ "__" ++ o.value

/-- The text before and after the first `__`. -/
def cutSeparator : List Char → Option (List Char × List Char)
  | [] => none
  | [_] => none
  | a :: b :: rest =>
    if a = '_' ∧ b = '_' then some ([], rest)
    else (cutSeparator (b :: rest)).map fun (before, after) => (a :: before, after)

/-- The text behind a `__` at the head. -/
def skipSeparator : List Char → Option (List Char)
  | '_' :: '_' :: rest => some rest
  | _ => none

/-- The column, the code and the filter text of a filter entry's value. -/
def parts? (s : List Char) : Option (List Char × List Char × List Char) := do
  let (column, s) ← cutSeparator s
  let code := s.takeWhile (· ≠ '_')
  if code.isEmpty then none
  let value ← skipSeparator (s.dropWhile (· ≠ '_'))
  return (column, code, value)

/-- The option of a filter entry's value, unless it is malformed or its code is unknown. -/
def ofQueryValue? (s : String) : Option FilterOption := do
  let (column, code, value) ← parts? s.toList
  if column.isEmpty then none
  match Operator.ofCode (String.ofList code) with
  | .ok operator => some ⟨String.ofList column, operator, String.ofList value⟩
  | .error _ => none

end FilterOption

namespace Settings

/-- The key of a filter entry. -/
def filterKey : String := "grid-filter"

/-- The key of an entry that clears a column's initial filter. -/
def clearKey : String := "grid-clearinitfilter"

def push (s : Settings) (o : FilterOption) : Settings := { s with options := s.options ++ [o] }

def clear (s : Settings) (column : String) : Settings :=
  if column ∈ s.cleared then s else { s with cleared := s.cleared ++ [column] }

def isEmpty (s : Settings) : Bool := s.options.isEmpty && s.cleared.isEmpty

/-- The options of a column in the order of the request. -/
def optionsFor (s : Settings) (column : String) : List FilterOption :=
  s.options.filter (·.column = column)

/-- Whether a column's initial filter applies: it has one, and the request neither carries an
option for the column nor clears it. -/
def isInitial (s : Settings) (c : ColumnState) : Bool :=
  c.initialFilter.isSome && !s.options.any (·.column = c.name) && !s.cleared.contains c.name

/-- The settings as the source of a request's filters. -/
def source (s : Settings) : FilterSource := ⟨s.isInitial, s.optionsFor⟩

instance : Coe Settings FilterSource := ⟨source⟩

/-- A key or a value of a query string. Text whose bytes are not UTF-8 stays as it is, but for
its plus signs. -/
def decode (raw : List Char) : String :=
  let raw := String.ofList (raw.map fun c => if c = '+' then ' ' else c)
  (decoded? raw).getD raw

/-- The entries of a query string; an entry without `=` has an empty value. -/
def entries (query : List Char) : List (String × String) :=
  (pieces '&' query).map fun entry =>
    match cutAt '=' entry with
    | some (key, value) => (decode key, decode value)
    | none => (decode entry, "")

/-- The settings with one more entry of a query string. -/
def addEntry (s : Settings) (entry : String × String) : Settings :=
  let (key, value) := entry
  if key = filterKey then
    match FilterOption.ofQueryValue? value with
    | some o => s.push o
    | none => s
  else if key = clearKey ∧ value ≠ "" then s.clear value
  else s

/-- The settings of a query string, with any question marks in front of it. -/
def ofQuery (query : String) : Settings :=
  (entries ((trim query.toList).dropWhile (· = '?'))).foldl addEntry {}

end Settings

end DataGrid
