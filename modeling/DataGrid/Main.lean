import DataGrid.CommandLine.Request

/-!
# The program

Reads the files that the command names, and shows or writes what its plan says.
-/

namespace DataGrid.CommandLine

/-- The variables that matter, as far as they are set. -/
def readEnvironment : IO Environment := do
  let names := "XDG_CONFIG_HOME" :: "HOME" :: Config.variableNames
  names.filterMapM fun name => return (← IO.getEnv name).map (name, ·)

/-- The text of a file, or the reason why it cannot be read. -/
def readText (file : String) : IO (Except String String) := do
  try
    return .ok (← IO.FS.readFile file)
  catch
    | .noFileOrDirectory _ code details => return .error s!"{details} (os error {code})"
    | e => return .error (toString e)

/-- Shows how a run ended and gives its exit code. -/
def conclude (outcome : Outcome) : IO UInt32 := do
  match outcome with
  | .shown text => IO.print text
  | .failed message => IO.eprintln s!"Error: {message}"
  | .crashed text cause =>
    IO.print text
    IO.eprintln cause.message
  | .misused => IO.eprintln "error: invalid arguments\n\nFor more information, try '--help'."
  return outcome.exitCode.toUInt32

end DataGrid.CommandLine

open DataGrid DataGrid.CommandLine

/-- One run of the program. -/
def main (args : List String) : IO UInt32 := do
  match Command.parse? args with
  | none => conclude .misused
  | some command =>
    let env ← readEnvironment
    let texts ← (command.files env).mapM fun file => return (file, ← readText file)
    let files : Files := fun file => (texts.lookup file).getD (.error "not read")
    match command.plan env files with
    | .finish outcome => conclude outcome
    | .write file content done failed =>
      let written ← (IO.FS.writeFile file content).toBaseIO
      conclude (if written.isOk then done else failed)
