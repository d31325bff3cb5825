import DataGrid.CommandLine.Arguments
import DataGrid.Definition
import DataGrid.Grid.Display
import DataGrid.Json.Reader

/-!
# Running the program

A command becomes a plan: to show something, to end with an error, or to write a
file and go on by how that went. All files that a command may read are named
beforehand by `Command.files`, so that a plan is a function of the arguments, the
environment and the files.
-/

namespace DataGrid.CommandLine

/-- Why a request cannot be answered. -/
inductive Failure where
  | config (cause : ConfigError)
  | missingInput
  | grid (cause : GridError)
  | unreadableData (file : String)
  | malformedData (file : String)
  | store (cause : QueryError)
  | direction (cause : Direction.Unknown)

def Failure.message : Failure → String
  | config cause => cause.message
  | missingInput => "--grid and --data are required (or use the init-config command)"
  | grid cause => cause.message
  | unreadableData file => s!"Failed to read {file}"
  | malformedData file => s!"Invalid JSON in {file}"
  | store cause => cause.message
  | direction cause => cause.message

/-- How a run ends: what it shows, or why it failed or stopped short. -/
inductive Outcome where
  | shown (text : String)
  | failed (message : String)
  /-- The program ended where it stood. -/
  | crashed (shown : String) (cause : Crash)
  /-- The arguments are against the rules. -/
  | misused
  deriving DecidableEq, Repr

/-- What a run does. -/
inductive Plan where
  | finish (outcome : Outcome)
  /-- A file is written, and the run ends in one of two ways. -/
  | write (file content : String) (done failed : Outcome)
  deriving DecidableEq, Repr

/-- The settings of a request. -/
def config (env : Environment) (files : Files) (given : Given) : Except Failure Config :=
  match given.lookup .config with
  | some file => (Config.loadWith env files file).mapError .config
  | none => .ok (Config.loadStandard env files)

/-- The rows of a data file. -/
def readStore (files : Files) (file : String) : Except Failure Store :=
  match files file with
  | .error _ => .error (.unreadableData file)
  | .ok text =>
    match Json.parse? text with
    | none => .error (.malformedData file)
    | some document => (Store.ofJson document).mapError .store

/-- The grid sorted by a column and a direction with a colon between them; without a direction it
is ascending. -/
def sorted (g : Grid) (text : String) : Except Failure Grid :=
  match Text.cutAt ':' text.toList with
  | none => (g.sortBy text (some .ascending)).mapError .grid
  | some (column, direction) => do
    let d ← (Direction.ofText (String.ofList direction)).mapError .direction
    (g.sortBy (String.ofList column) (some d)).mapError .grid

/-- The answer to a request. -/
def answer (env : Environment) (files : Files) (given : Given) : Except Failure Shown := do
  let config ← config env files given
  let (some gridFile, some dataFile) := (given.lookup .grid, given.lookup .data)
    | .error .missingInput
  let definition ← (Definition.load files gridFile).mapError .grid
  let grid ← (definition.build config).mapError .grid
  let store ← readStore files dataFile
  let grid ← match given.lookup .sort with
    | some text => sorted grid text
    | none => .ok grid
  let settings := Settings.ofQuery ((given.lookup .query).getD "")
  let (grid, result) := grid.process settings store.executor
  let view ← result.mapError .grid
  if given.lookup .format = some "json" then return view.document grid
  else return view.table grid

/-- Why the program ends instead of reporting the failure, if it does. -/
def Failure.crash? : Failure → Option Crash
  | grid cause => cause.crash?
  | _ => none

/-- How a request ends. -/
def Outcome.ofAnswer : Except Failure Shown → Outcome
  | .ok ⟨text, none⟩ => shown text
  | .ok ⟨text, some cause⟩ => crashed text cause
  | .error failure =>
    match failure.crash? with
    | none => failed failure.message
    | some cause => crashed "" cause

/-- The files that a command may read. -/
def Command.files (env : Environment) : Command → List String
  | request given =>
    (match given.lookup .config with
      | some file => [file]
      | none => Config.standardFiles env)
      ++ (given.lookup .grid).toList ++ (given.lookup .data).toList
  | _ => []

/-- The plan of a command. -/
def Command.plan (env : Environment) (files : Files) : Command → Plan
  | request given => .finish (.ofAnswer (answer env files given))
  | initConfig none => .finish (.shown Config.template)
  | initConfig (some file) =>
    .write file Config.template (.shown s!"Wrote default config to {file}\n")
      (.failed s!"Failed to write {file}")
  | display text => .finish (.shown text)

/-- The exit code of a run. -/
def Outcome.exitCode : Outcome → Nat
  | shown _ => 0
  | failed _ => 1
  | misused => 2
  | crashed _ _ => 101

end DataGrid.CommandLine
