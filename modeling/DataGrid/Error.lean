import DataGrid.Filter.Operator
import DataGrid.Store

/-!
# Errors of a grid

What can go wrong when a grid is defined, changed or asked. Bad filter texts and
unknown codes in a request are none of these: they end in no constraint.
A query in which the program ends counts among them.
-/

namespace DataGrid

/-- Why a grid definition is invalid. -/
inductive DefinitionError where
  | blankEntity
  | namelessColumn
  /-- The text is no definition. -/
  | malformed
  /-- The file cannot be read. -/
  | unreadable (file reason : String)

namespace DefinitionError

def message : DefinitionError → String
  | blankEntity => "Invalid grid definition: entity must not be empty"
  | namelessColumn => "Invalid grid definition: column needs a name or an expression"
  | malformed => "Invalid grid definition: "
  | unreadable file reason => s!"Invalid grid definition: {file}: {reason}"

end DefinitionError

/-- An error of a grid. -/
inductive GridError where
  | illegalOperator (operator : Operator) (kind : Kind)
  | unknownOperator (text : String)
  | duplicateColumn (name : String)
  | unknownColumn (name : String)
  | definition (cause : DefinitionError)
  | query (cause : QueryError)

namespace GridError

def message : GridError → String
  | illegalOperator operator kind => s!"Illegal operator {operator.label} for {kind.name} column"
  | unknownOperator text => s!"Unknown filter operator: {text}"
  | duplicateColumn name => s!"Duplicate column: {name}"
  | unknownColumn name => s!"Unknown column: {name}"
  | definition cause => cause.message
  | query cause => s!"Query error: {cause.message}"

/-- Why the program ends instead of handing on the error, if it does. -/
def crash? : GridError → Option Crash
  | query (.crash cause) => some cause
  | _ => none

def ofUnknownOperator (e : Operator.Unknown) : GridError := .unknownOperator e.text

end GridError

end DataGrid
