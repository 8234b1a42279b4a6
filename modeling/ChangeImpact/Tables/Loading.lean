/-
Loading the tables from a file.

Where the tables are read from is decided by `Source`: a path that is given, or else one from the
environment, or else the file that comes with the program. That one is looked for upwards from the
directory of the program, and it may not be there (`findTables`). `load` reads the file, takes its text
for a value and the value for a model; each of the three steps can fail, and `LoadError` says which
one did and why. `read` is the way from a text to a value and is given from outside.
-/
import ChangeImpact.Tables.Model
import ChangeImpact.Disk.Basic
import ChangeImpact.Failure

namespace ChangeImpact

/-! ## Which file -/

inductive Source where
  | explicit
  | environment
  | bundled
  deriving DecidableEq

def Source.name : Source → String
  | .explicit => "explicit"
  | .environment => "env"
  | .bundled => "bundled"

/-- the path that is given for the tables: an empty one is none, and neither is a blank one from the environment -/
def givenPath? (directory : String) (explicit environment : Option String) : Option (String × Source) :=
  match explicit.filter (· ≠ "") with
  | some path => some (Path.absolute directory path, .explicit)
  | none => (environment.bind Text.present?).map fun path => (Path.absolute directory path, .environment)

/-- the file that comes with the program, below the folder that holds it -/
def bundledName : Location := ["config", "premerge.yaml"]

/-- looks upwards from a place, given by its names from the last one on, for a folder that passes a test -/
def findUp (test : Location → Bool) : List String → Option Location
  | [] => if test [] then some [] else none
  | name :: above => if test (name :: above).reverse then some (name :: above).reverse else findUp test above

/-- something stands at a path -/
def Disk.exists (disk : Disk) (path : String) : Bool :=
  match disk.look [] path with
  | .ok _ => true
  | .error _ => false

/-- the file that comes with the program, in the nearest folder above its directory that has one -/
def bundledPath? (disk : Disk) (root : String) : Option String :=
  (findUp (fun folder => disk.exists (Path.ofPlace (folder ++ bundledName))) (Path.place "/" root).reverse).map
    fun folder => Path.ofPlace (folder ++ bundledName)

/-- the file with the tables, and why it is that one, none when there is no file that comes with the program -/
def findTables (disk : Disk) (directory root : String) (explicit environment : Option String) : Option (String × Source) :=
  (givenPath? directory explicit environment).orElse fun _ => (bundledPath? disk root).map (·, .bundled)

/-- the file that comes with a program that is installed as it should be, right in the program's directory -/
def bundledPath (root : String) : String :=
  Path.ofPlace (Path.place "/" root ++ bundledName)

/-- the file with the tables for a program that is installed as it should be -/
def tablesPath (directory root : String) (explicit environment : Option String) : String × Source :=
  (givenPath? directory explicit environment).getD (bundledPath root, .bundled)

theorem findUp_of_test {test : Location → Bool} {place : Location} (h : test place = true) :
    findUp test place.reverse = some place := by
  cases hplace : place.reverse with
  | nil =>
    obtain rfl : place = [] := List.reverse_eq_nil_iff.mp hplace
    rw [findUp, if_pos h]
  | cons name above =>
    have hwhole : (name :: above).reverse = place := by rw [← hplace, List.reverse_reverse]
    rw [findUp, hwhole, if_pos h]

/-- tables that are right in the program's directory are found there -/
theorem findTables_of_exists {disk : Disk} {root : String} (h : disk.exists (bundledPath root) = true) (directory : String)
    (explicit environment : Option String) :
    findTables disk directory root explicit environment = some (tablesPath directory root explicit environment) := by
  have hbundled : bundledPath? disk root = some (bundledPath root) := by
    have hfound := @findUp_of_test (fun folder => disk.exists (Path.ofPlace (folder ++ bundledName))) (Path.place "/" root) h
    rw [bundledPath?, hfound, Option.map_some, bundledPath]
  unfold findTables tablesPath
  cases givenPath? directory explicit environment with
  | none => rw [hbundled]; rfl
  | some found => rfl

/-! ## Loading -/

/-- why there are no tables at a path -/
inductive LoadError where
  | unreadable (path : String) (error : DiskError)
  | notYaml (path : String) (reason : String)
  | refused (path : String) (refusal : Refusal)

/-- a refusal as a failure of its own -/
def Refusal.failure (r : Refusal) : Failure :=
  .error (.tables r.details) (ErrorKind.tables []).name r.message none none

namespace LoadError

def title : LoadError → String
  | unreadable .. => "Selection config missing."
  | notYaml .. => "Selection config is not valid YAML."
  | refused .. => "Selection config invalid."

def message : LoadError → String
  | unreadable path _ => "Could not read selection config at " ++ path ++ "."
  | notYaml path _ => "Could not parse " ++ path ++ "."
  | refused path r => "\n".intercalate ((r.message ++ " (" ++ path ++ ")") :: r.details.map ("  - " ++ ·))

def cause : LoadError → Failure
  | unreadable _ e => .error .other ErrorKind.other.name e.message none none
  | notYaml _ reason => .error .other ErrorKind.other.name reason none none
  | refused _ r => r.failure

/-- the error as a user is told of it -/
def failure (e : LoadError) : Failure :=
  let kind := ErrorKind.reported "CONFIG_ERROR" e.title (some "Fix the selection tables or pass --config <path>.") none
  .error kind kind.name e.message none (some e.cause)

end LoadError

/-- why a program has no tables: none come with it, or those that are meant cannot be loaded -/
inductive TablesError where
  | missing (root : String)
  | unloaded (e : LoadError)

def TablesError.failure : TablesError → Failure
  | .missing root =>
    let message := "Bundled " ++ "/".intercalate bundledName ++ " not found above " ++ root ++ "."
    .error (.tables []) (ErrorKind.tables []).name message none none
  | .unloaded e => e.failure

/-- the model in the file at a path -/
def load (read : String → Except String Value) (disk : Disk) (directory path : String) : Except LoadError Model :=
  let path := Path.absolute directory path
  match disk.read [] path with
  | .error e => .error (.unreadable path e)
  | .ok text =>
    match read text with
    | .error reason => .error (.notYaml path reason)
    | .ok v =>
      match Model.ofValue v with
      | .error r => .error (.refused path r)
      | .ok m => .ok m

end ChangeImpact
