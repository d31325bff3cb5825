import DataGrid.Text.Pieces

/-!
# Arguments of the program

Options with a value are written `--name value`, `--name=value`, `-n value`,
`-nvalue` or `-n=value`. A value of its own does not begin with a dash, unless it is
the dash alone. No option is given twice, and no file name is empty. The arguments
are read from left to right, and the first that asks for help ends the reading.
-/

namespace DataGrid.CommandLine

open DataGrid.Text

/-- An option with a value. -/
inductive Setting where
  | grid | data | query | sort | format | config | output
  deriving DecidableEq, Repr

namespace Setting

def name : Setting → String
  | grid => "grid"
  | data => "data"
  | query => "query"
  | sort => "sort"
  | format => "format"
  | config => "config"
  | output => "output"

/-- The letter of an option that has one. -/
def letter? : Setting → Option Char
  | grid | data => none
  | query => some 'q'
  | sort => some 's'
  | format => some 'f'
  | config => some 'c'
  | output => some 'o'

/-- Whether the value names a file. -/
def isFile : Setting → Bool
  | grid | data | config | output => true
  | query | sort | format => false

end Setting

/-- A command that takes options. -/
inductive Scope where
  /-- The program without a subcommand. -/
  | program
  /-- The subcommand that writes a settings file. -/
  | initConfig
  deriving DecidableEq, Repr

namespace Scope

def settings : Scope → List Setting
  | program => [.grid, .data, .query, .sort, .format, .config]
  | initConfig => [.output, .config]

/-- What `--help` shows. -/
def help : Scope → String
  | program =>
    joinLines [
      "Filter, sort and total tabular data from a grid definition",
      "",
      "Usage: tabula [OPTIONS] [COMMAND]",
      "",
      "Commands:",
      "  init-config  Print the default config file",
      "  help         Print this message or the help of the given subcommand(s)",
      "",
      "Options:",
      "      --grid <GRID>      Grid definition (TOML)",
      "      --data <DATA>      Data file: a JSON object mapping entity names to arrays of records",
      "  -q, --query <QUERY>    Request query string (grid-filter=Column__code__value&...) [default: ]",
      "  -s, --sort <SORT>      Sort column, optionally with direction (Column:asc or Column:desc)",
      "  -f, --format <FORMAT>  Output format (table, json) [default: table]",
      "  -c, --config <CONFIG>  Config file (default: search standard locations)",
      "  -h, --help             Print help",
      "  -V, --version          Print version"]
  | initConfig =>
    joinLines [
      "Print the default config file",
      "",
      "Usage: tabula init-config [OPTIONS]",
      "",
      "Options:",
      "  -o, --output <OUTPUT>  Output path (default: stdout)",
      "  -c, --config <CONFIG>  Config file (default: search standard locations)",
      "  -h, --help             Print help"]

/-- What `--version` shows, where it is an option. -/
def version? : Scope → Option String
  | program => some "tabula 0.1.0\n"
  | initConfig => none

end Scope

/-- What the help on the subcommand `help` shows. -/
def helpOnHelp : String :=
  joinLines [
    "Print this message or the help of the given subcommand(s)",
    "",
    "Usage: tabula help [COMMAND]...",
    "",
    "Arguments:",
    "  [COMMAND]...  Print help for the subcommand(s)"]

/-- What one argument is. -/
inductive Argument where
  | setting (s : Setting) (attached : Option String)
  | help
  | version (text : String)
  /-- The mark behind which no argument is an option. -/
  | mark
  | word (text : String)
  | unknown
  deriving DecidableEq, Repr

namespace Argument

/-- An argument that begins with two dashes, without them. -/
private def ofLong (scope : Scope) (s : List Char) : Argument :=
  let (name, value) := match cutAt '=' s with
    | some (name, value) => (String.ofList name, some (String.ofList value))
    | none => (String.ofList s, none)
  match scope.settings.find? (·.name = name), scope.version?, value with
  | some s, _, value => setting s value
  | none, some text, none =>
    if name = "help" then help else if name = "version" then version text else unknown
  | none, none, none => if name = "help" then help else unknown
  | none, _, some _ => unknown

/-- An argument that begins with one dash, without it. -/
private def ofShort (scope : Scope) (letter : Char) (rest : List Char) : Argument :=
  match scope.settings.find? (·.letter? = some letter), scope.version? with
  | some s, _ =>
    match rest with
    | [] => setting s none
    | '=' :: value => setting s (some (String.ofList value))
    | value => setting s (some (String.ofList value))
  | none, some text =>
    if letter = 'h' then help else if letter = 'V' then version text else unknown
  | none, none => if letter = 'h' then help else unknown

/-- What an argument is for a command. -/
def ofString (scope : Scope) (arg : String) : Argument :=
  match arg.toList with
  | ['-', '-'] => mark
  | '-' :: '-' :: rest => ofLong scope rest
  | '-' :: letter :: rest => ofShort scope letter rest
  | _ => word arg

end Argument

/-- The values of the options that are given. -/
abbrev Given := List (Setting × String)

/-- The options with one more. -/
def Given.add (given : Given) (s : Setting) (value : String) : Option Given :=
  if (given.lookup s).isSome ∨ (s.isFile ∧ value = "") then none
  else some ((s, value) :: given)

/-- What the arguments ask for. -/
inductive Command where
  /-- One request, with its options. -/
  | request (given : Given)
  /-- The default settings, written to a file or shown. -/
  | initConfig (output : Option String)
  | display (text : String)
  deriving DecidableEq, Repr

namespace Command

/-- What a command does with its options. -/
private def ofGiven : Scope → Given → Command
  | .program, given => request given
  | .initConfig, given => initConfig (given.lookup .output)

/-- The help that the subcommand `help` is asked for. -/
private def helpOn? : List String → Option Command
  | [] => some (display Scope.program.help)
  | ["init-config"] => some (display Scope.initConfig.help)
  | ["help"] => some (display helpOnHelp)
  | _ => none

/-- The options of a command from its arguments. A word that is no value is left to `onWord`
with the arguments behind it. -/
private def read? (scope : Scope) (onWord : String → List String → Option Command) :
    Given → List String → Option Command
  | given, [] => some (ofGiven scope given)
  | given, arg :: rest =>
    match Argument.ofString scope arg with
    | .help => some (display scope.help)
    | .version text => some (display text)
    | .mark => if rest.isEmpty then some (ofGiven scope given) else none
    | .word word => onWord word rest
    | .unknown => none
    | .setting s (some value) => (given.add s value).bind (read? scope onWord · rest)
    | .setting s none =>
      match rest with
      | [] => none
      | value :: rest =>
        match Argument.ofString scope value with
        | .word value => (given.add s value).bind (read? scope onWord · rest)
        | _ => none

/-- The command of a list of arguments; none if it is against the rules. -/
def parse? (args : List String) : Option Command :=
  read? .program (fun word rest =>
    if word = "init-config" then read? .initConfig (fun _ _ => none) [] rest
    else if word = "help" then helpOn? rest
    else none) [] args

end Command

end DataGrid.CommandLine
