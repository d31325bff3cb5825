import DataGrid.Document.Forms
import DataGrid.Toml.Reader

/-!
# Settings of the program

Defaults for the columns of every grid, paging and logging. Settings come from a
TOML file, in which every part may be left out, and variables of the environment
override them one by one. A variable whose text has no meaning changes nothing.

Without a file of its own a program takes the first usable one of the standard
files, and without any of these the default settings.
-/

namespace DataGrid

open Text
open Document (Dialect components? text? boolean? listOf?)

/-- Defaults for columns that do not say otherwise. -/
structure GridDefaults where
  sortable : Bool := false
  filterable : Bool := false
  sortMode : SortMode := .threeState
  format : Option String := none
  deriving DecidableEq, Repr

/-- What is logged, and how. -/
structure Logging where
  level : String := "info"
  format : String := "pretty"
  deriving DecidableEq, Repr

/-- The settings of the program. -/
structure Config where
  grid : GridDefaults := {}
  paging : Paging := {}
  logging : Logging := {}
  deriving DecidableEq, Repr

/-- The variables of the environment. -/
abbrev Environment := List (String × String)

/-- The text of each file, or the reason why it cannot be read. -/
abbrev Files := String → Except String String

/-- Why settings cannot be loaded from a file. -/
inductive ConfigError where
  | unreadable (file reason : String)
  /-- The text holds no settings. -/
  | malformed (file : String)
  deriving DecidableEq, Repr

namespace ConfigError

/-- The hexadecimal digits of a number. -/
private def hexDigits (n : Nat) : List Char := Nat.toDigits 16 n

/-- A character of a quoted file name. -/
private def shown (c : Char) : List Char :=
  if c = '"' then ['\\', '"']
  else if c = '\\' then ['\\', '\\']
  else if c = '\n' then ['\\', 'n']
  else if c = '\r' then ['\\', 'r']
  else if c = '\t' then ['\\', 't']
  else if c = '\x00' then ['\\', '0']
  else if c.toNat < 0x20 ∨ (0x7F ≤ c.toNat ∧ c.toNat < 0xA0) then
    '\\' :: 'u' :: '\x7b' :: hexDigits c.toNat ++ ['\x7d']
  else [c]

/-- A file name between quotes. -/
def quotedName (file : String) : String :=
  String.ofList ('"' :: file.toList.flatMap shown ++ ['"'])

def message : ConfigError → String
  | unreadable file reason => s!"Failed to read config file {quotedName file}: {reason}"
  | malformed file => s!"Failed to parse config file {quotedName file}: "

end ConfigError

namespace Config

private def gridOfDocument? (d : Dialect) (doc : Document) : Option GridDefaults := do
  let parts ← components? d ["sortable", "filterable", "sort_mode", "default_format"] doc
  return {
    sortable := ← parts.defaulted "sortable" boolean? false
    filterable := ← parts.defaulted "filterable" boolean? false
    sortMode := ← parts.defaulted "sort_mode" (SortMode.ofDocument? d) .threeState
    format := ← parts.defaulted "default_format" (fun doc => doc.text?.map some) none }

private def pagingOfDocument? (d : Dialect) (doc : Document) : Option Paging := do
  let parts ← components? d ["kind", "no_totals"] doc
  return {
    kind := ← parts.defaulted "kind" (PagingKind.ofDocument? d) .standard
    noTotals := ← parts.defaulted "no_totals" boolean? false }

private def loggingOfDocument? (d : Dialect) (doc : Document) : Option Logging := do
  let parts ← components? d ["level", "format"] doc
  return {
    level := ← parts.defaulted "level" text? "info"
    format := ← parts.defaulted "format" text? "pretty" }

/-- The settings of a document. -/
def ofDocument? (d : Dialect) (doc : Document) : Option Config := do
  let parts ← components? d ["grid", "paging", "logging"] doc
  return {
    grid := ← parts.defaulted "grid" (gridOfDocument? d) {}
    paging := ← parts.defaulted "paging" (pagingOfDocument? d) {}
    logging := ← parts.defaulted "logging" (loggingOfDocument? d) {} }

/-- The settings of a TOML text. -/
def parse? (text : String) : Option Config := (Toml.parse? text).bind (ofDocument? .toml)

/-- A truth value of the environment, which has to be spelled exactly. -/
def truthOf? (text : String) : Option Bool :=
  if text = "true" then some true else if text = "false" then some false else none

/-- The settings with the variables of the environment in force. -/
def overridden (c : Config) (env : Environment) : Config where
  grid := {
    sortable := ((env.lookup "TABULA_SORTABLE").bind truthOf?).getD c.grid.sortable
    filterable := ((env.lookup "TABULA_FILTERABLE").bind truthOf?).getD c.grid.filterable
    sortMode := ((env.lookup "TABULA_SORT_MODE").bind fun text =>
      SortMode.ofName? (trimmed text)).getD c.grid.sortMode
    format := env.lookup "TABULA_DEFAULT_FORMAT" <|> c.grid.format }
  paging := {
    kind := ((env.lookup "TABULA_PAGING").bind fun text =>
      (PagingKind.ofText text).toOption).getD c.paging.kind
    noTotals := ((env.lookup "TABULA_NO_TOTALS").bind truthOf?).getD c.paging.noTotals }
  logging := {
    level := (env.lookup "TABULA_LOG_LEVEL").getD c.logging.level
    format := (env.lookup "TABULA_LOG_FORMAT").getD c.logging.format }

/-- The names of the variables that override settings. -/
def variableNames : List String :=
  ["TABULA_SORTABLE", "TABULA_FILTERABLE", "TABULA_SORT_MODE", "TABULA_DEFAULT_FORMAT",
    "TABULA_PAGING", "TABULA_NO_TOTALS", "TABULA_LOG_LEVEL", "TABULA_LOG_FORMAT"]

/-- The settings of a file. -/
def load (files : Files) (file : String) : Except ConfigError Config :=
  match files file with
  | .error reason => .error (.unreadable file reason)
  | .ok text =>
    match parse? text with
    | some c => .ok c
    | none => .error (.malformed file)

/-- The settings of a file under the environment. -/
def loadWith (env : Environment) (files : Files) (file : String) : Except ConfigError Config :=
  (load files file).map (·.overridden env)

/-- The default settings under the environment. -/
def ofEnvironment (env : Environment) : Config := ({} : Config).overridden env

/-- The directory for the settings of a user's programs. -/
def userDirectory? (env : Environment) : Option String :=
  match env.lookup "XDG_CONFIG_HOME" with
  | some directory =>
    if ['/'].isPrefixOf directory.toList then some directory else homeDirectory?
  | none => homeDirectory?
where
  homeDirectory? : Option String :=
    ((env.lookup "HOME").filter (· ≠ "")).map fun home => s!"{home}/.config"

/-- The standard files in the order in which they are tried. -/
def standardFiles (env : Environment) : List String :=
  ((userDirectory? env).map fun directory => s!"{directory}/tabula/config.toml").toList
    ++ ["./tabula.toml"]

/-- The settings of the first standard file that can be loaded, or else the default ones, under
the environment. -/
def loadStandard (env : Environment) (files : Files) : Config :=
  ((standardFiles env).findSome? fun file => (loadWith env files file).toOption).getD
    (ofEnvironment env)

/-- A file with the default settings, and a comment on each of them. -/
def template : String :=
  joinLines [
    "# Tabula Configuration",
    "#",
    "# Environment variables override these settings:",
    "# - TABULA_SORTABLE",
    "# - TABULA_FILTERABLE",
    "# - TABULA_SORT_MODE",
    "# - TABULA_DEFAULT_FORMAT",
    "# - TABULA_PAGING",
    "# - TABULA_NO_TOTALS",
    "# - TABULA_LOG_LEVEL",
    "# - TABULA_LOG_FORMAT",
    "",
    "[grid]",
    "# Enable sorting on columns that do not configure it",
    "sortable = false",
    "",
    "# Enable filtering on columns that do not configure it",
    "filterable = false",
    "",
    "# Sort cycle: three_state (asc, desc, unsorted) or two_state (asc, desc)",
    "sort_mode = \"three_state\"",
    "",
    "# printf-style pattern for totals of columns without their own format",
    "# default_format = \"%.2f\"",
    "",
    "[paging]",
    "# Paging type: standard or virtualization",
    "kind = \"standard\"",
    "",
    "# Skip totals for virtualized grids",
    "no_totals = false",
    "",
    "[logging]",
    "# Log level: trace, debug, info, warn, error",
    "level = \"info\"",
    "",
    "# Log format: pretty (for development) or json (for production)",
    "format = \"pretty\""]

end Config

end DataGrid
