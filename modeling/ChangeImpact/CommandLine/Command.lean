/-
The commands and the switches they take.

The program has three commands, and one of them has a command of its own. A switch is a word that
begins with two dashes; some switches stand for themselves and others come with a value.
-/

namespace ChangeImpact

inductive Switch where
  | debug
  | diff
  | repo
  | json
  | strictPlatform
  | config
  | logFile
  deriving DecidableEq, Repr

namespace Switch

/-- the word that a switch is given by -/
def word : Switch → String
  | debug => "--debug"
  | diff => "--diff"
  | repo => "--repo"
  | json => "--json"
  | strictPlatform => "--strict-platform"
  | config => "--config"
  | logFile => "--log-file"

/-- what the value of a switch is called, for a switch that comes with one -/
def valueName? : Switch → Option String
  | diff => some "range"
  | repo | config | logFile => some "path"
  | debug | json | strictPlatform => none

def takesValue (s : Switch) : Bool :=
  s.valueName?.isSome

/-- a switch as it is shown, with the name of its value -/
def shown (s : Switch) : String :=
  s.word ++ (s.valueName?.map fun v => " <" ++ v ++ ">").getD ""

def description : Switch → String
  | debug => "Show error codes, causes and stack traces (default: false)"
  | diff => "Read changed files from git diff --name-only <range>"
  | repo => "Repository used with --diff (default: cwd)"
  | json => "Print a JSON object instead of shell assignments (default: false)"
  | strictPlatform => "Reject platforms without exclusion tables (default: false)"
  | config => "Selection tables (YAML); defaults to the bundled tables"
  | logFile => "Append JSONL events to this file"

end Switch

/-- the words that ask for help -/
def helpWords : List String :=
  ["-h", "--help"]

/-- the command that every command with others below it has for help -/
def helpCommand : String := "help"

/-- the program and the commands below it -/
inductive Command where
  | program
  | compute
  | projects
  | config
  | check
  deriving DecidableEq, Repr

/-- the words that a command is given -/
structure Operands where
  name : String
  shown : String
  description : String

namespace Command

def name : Command → String
  | program => "premerge-scope"
  | compute => "compute"
  | projects => "projects"
  | config => "config"
  | check => "check"

def description : Command → String
  | program => "Select what a pre-merge CI run builds and tests for a change"
  | compute => "Print the projects, runtimes and check targets to build for changed files"
  | projects => "List the projects changed files belong to"
  | config => "Inspect the selection tables"
  | check => "Validate the selection tables and print a summary"

def switches : Command → List Switch
  | program => [.debug]
  | compute => [.diff, .repo, .json, .strictPlatform, .config, .logFile]
  | projects => [.config]
  | config => []
  | check => [.config]

def operands? : Command → Option Operands
  | compute => some ⟨"platform", "[platform]", "Linux, Windows or Darwin (default: host platform)"⟩
  | projects => some ⟨"files", "[files...]", "Changed files (default: read from stdin)"⟩
  | _ => none

/-- the commands right below a command -/
def below : Command → List Command
  | program => [compute, projects, config]
  | config => [check]
  | _ => []

/-- the commands above a command, the nearest first -/
def above : Command → List Command
  | program => []
  | check => [config, program]
  | _ => [program]

/-- how many levels of commands are below a command -/
def height : Command → Nat
  | program => 2
  | config => 1
  | _ => 0

end Command

end ChangeImpact
