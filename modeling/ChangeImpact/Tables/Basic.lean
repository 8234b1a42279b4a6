/-
The tables that a selection is made from, as they are written.

`Tables.shape` is the shape that a value must have, and `Tables.ofValue` reads the tables off such a
value: names and keys without the blank characters around them, every list in its order with its
repetitions, every table in the order of its keys. Where two keys become equal the later entry
replaces the earlier one, and the key `__proto__` is not kept. `Tables.read` is the one after the
other: the tables, or every issue that the value has.
-/
import ChangeImpact.Tables.Shape
import ChangeImpact.Platform

namespace ChangeImpact

/-- a rule that gives all files below a path to a project -/
structure Rule where
  segments : List String
  project : String
  deriving DecidableEq

/-- names under names, in the order in which they are written -/
abbrev NameLists := Fields (List String)

structure Tables where
  projects : List String
  runtimes : List String
  dependencies : NameLists
  dependents : NameLists
  runtimesBuilt : NameLists
  runtimesTested : NameLists
  runtimesReconfigured : NameLists
  checkTargets : Fields String
  excluded : PerPlatform (List String)
  excludedDependents : PerPlatform (List String)
  rules : List Rule
  skipped : List String
  unlisted : List String
  sentinel : Option String
  deriving DecidableEq

namespace Tables

/-! ## The shape -/

def namesShape : Shape :=
  .list false .name

def nameListsShape : Shape :=
  .table namesShape

def perPlatformShape : Shape :=
  .record (Platform.all.map fun p => (p.name, false, namesShape))

def ruleShape : Shape :=
  .record [("path", true, .list true .segment), ("project", true, .name)]

/-- the fields: the name, whether it is required, and the shape of each -/
def fieldShapes : List (String × Bool × Shape) :=
  [("projects", true, .list true .name),
   ("runtimes", false, namesShape),
   ("dependencies", false, nameListsShape),
   ("dependents_to_test", false, nameListsShape),
   ("runtimes_to_build", false, nameListsShape),
   ("runtimes_to_test", false, nameListsShape),
   ("runtimes_to_test_needs_reconfig", false, nameListsShape),
   ("check_targets", false, .table .name),
   ("exclusions", false, perPlatformShape),
   ("dependent_exclusions", false, perPlatformShape),
   ("meta_projects", false, .list false ruleShape),
   ("skip_projects", false, namesShape),
   ("skip_build_projects", false, namesShape),
   ("cir_project", false, .name)]

def shape : Shape :=
  .record fieldShapes

/-! ## Reading -/

/-- the text of a value that is one -/
def textOf : Value → String
  | .string s => s
  | _ => ""

def itemsOf : Value → List Value
  | .array items => items
  | _ => []

def entriesOf : Value → List (String × Value)
  | .object entries => entries
  | _ => []

/-- the value of a field, null standing for one that is left out -/
def fieldOf (v : Value) (key : String) : Value :=
  ((entriesOf v).lookup key).getD .null

def readName (v : Value) : String :=
  nameOf (textOf v)

def readNames (v : Value) : List String :=
  (itemsOf v).map readName

/-- the entries of a table under their trimmed keys -/
def readTable {α : Type} (readEntry : Value → α) (v : Value) : Fields α :=
  Fields.ofEntries (((entriesOf v).map fun e => (nameOf e.1, readEntry e.2)).filter fun e => e.1 ≠ "__proto__")

def readPerPlatform (v : Value) : PerPlatform (List String) where
  linux := readNames (fieldOf v Platform.linux.name)
  windows := readNames (fieldOf v Platform.windows.name)
  darwin := readNames (fieldOf v Platform.darwin.name)

/-- the segments of a rule are taken as they are written -/
def readRule (v : Value) : Rule where
  segments := (itemsOf (fieldOf v "path")).map textOf
  project := readName (fieldOf v "project")

/-- the tables that a value of the right shape writes down -/
def ofValue (v : Value) : Tables where
  projects := readNames (fieldOf v "projects")
  runtimes := readNames (fieldOf v "runtimes")
  dependencies := readTable readNames (fieldOf v "dependencies")
  dependents := readTable readNames (fieldOf v "dependents_to_test")
  runtimesBuilt := readTable readNames (fieldOf v "runtimes_to_build")
  runtimesTested := readTable readNames (fieldOf v "runtimes_to_test")
  runtimesReconfigured := readTable readNames (fieldOf v "runtimes_to_test_needs_reconfig")
  checkTargets := readTable readName (fieldOf v "check_targets")
  excluded := readPerPlatform (fieldOf v "exclusions")
  excludedDependents := readPerPlatform (fieldOf v "dependent_exclusions")
  rules := (itemsOf (fieldOf v "meta_projects")).map readRule
  skipped := readNames (fieldOf v "skip_projects")
  unlisted := readNames (fieldOf v "skip_build_projects")
  sentinel := ((entriesOf v).lookup "cir_project").map readName

/-- the tables that a value writes down, or everything that is wrong with its shape -/
def read (v : Value) : Except (List Issue) Tables :=
  match shape.issues [] v with
  | [] => .ok (ofValue v)
  | issues => .error issues

end Tables

end ChangeImpact
