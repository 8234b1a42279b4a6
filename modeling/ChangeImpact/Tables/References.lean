/-
Names that the tables mention and must not.

The known names are the projects and the runtimes, and no name may be both. Every other name in the
tables has to be known, and the tables of runtimes must not list a project. `Tables.offences` lists
every mention that breaks one of these rules, each as often as it occurs: first the names that are
both, then field by field.
-/
import ChangeImpact.Tables.Basic

namespace ChangeImpact

/-- the five tables of name lists -/
inductive TableName where
  | dependencies
  | dependents
  | runtimesBuilt
  | runtimesTested
  | runtimesReconfigured
  deriving DecidableEq

namespace TableName

def all : List TableName :=
  [dependencies, dependents, runtimesBuilt, runtimesTested, runtimesReconfigured]

/-- the tables whose lists are of runtimes -/
def ofRuntimes : List TableName :=
  [runtimesBuilt, runtimesTested, runtimesReconfigured]

def text : TableName → String
  | dependencies => "dependencies"
  | dependents => "dependents_to_test"
  | runtimesBuilt => "runtimes_to_build"
  | runtimesTested => "runtimes_to_test"
  | runtimesReconfigured => "runtimes_to_test_needs_reconfig"

end TableName

/-- a place in the tables that mentions names -/
inductive Place where
  | table (t : TableName) (key : String)
  | checkTarget (key : String)
  | excluded (p : Platform)
  | excludedDependents (p : Platform)
  | rule (index : Nat)
  | skipped
  | unlisted
  | sentinel
  deriving DecidableEq

def Place.text : Place → String
  | .table t key => t.text ++ "." ++ key
  | .checkTarget key => "check_targets." ++ key
  | .excluded p => "exclusions." ++ p.name
  | .excludedDependents p => "dependent_exclusions." ++ p.name
  | .rule index => "meta_projects." ++ toString index ++ ".project"
  | .skipped => "skip_projects"
  | .unlisted => "skip_build_projects"
  | .sentinel => "cir_project"

inductive Offence where
  /-- a runtime that is a project too -/
  | both (name : String)
  /-- a mention of a name that is neither a project nor a runtime -/
  | unknown (place : Place) (name : String)
  /-- a project in a list of runtimes -/
  | notRuntime (table : TableName) (key : String) (name : String)
  deriving DecidableEq

def Offence.text : Offence → String
  | .both name => "runtimes: \"" ++ name ++ "\" is also listed under projects"
  | .unknown place name => place.text ++ ": unknown project \"" ++ name ++ "\""
  | .notRuntime table key name =>
    (Place.table table key).text ++ ": \"" ++ name ++ "\" is a project, not a runtime"

/-- the first occurrence of each name, in order -/
def distinct : List String → List String
  | [] => []
  | x :: rest => x :: (distinct rest).filter fun y => y ≠ x

namespace Tables

def table (t : Tables) : TableName → NameLists
  | .dependencies => t.dependencies
  | .dependents => t.dependents
  | .runtimesBuilt => t.runtimesBuilt
  | .runtimesTested => t.runtimesTested
  | .runtimesReconfigured => t.runtimesReconfigured

/-- the name is a project's or a runtime's -/
def Known (t : Tables) (name : String) : Prop :=
  name ∈ t.projects ∨ name ∈ t.runtimes

instance (t : Tables) (name : String) : Decidable (t.Known name) :=
  inferInstanceAs (Decidable (_ ∨ _))

/-- the project of each rule, under the number of the rule -/
def ruleMentions : Nat → List Rule → List (Place × String)
  | _, [] => []
  | i, r :: rest => (.rule i, r.project) :: ruleMentions (i + 1) rest

/-- the keys and the members of the tables of name lists, each key before its members -/
def tableMentions (t : Tables) : List (Place × String) :=
  TableName.all.flatMap fun n => (t.table n).flatMap fun e => (e.1 :: e.2).map fun x => (.table n e.1, x)

/-- the names in the other fields that have to be known -/
def otherMentions (t : Tables) : List (Place × String) :=
  (t.checkTargets.map fun e => (.checkTarget e.1, e.1)) ++
  (Platform.all.flatMap fun p =>
    (t.excluded.get p).map (fun x => (.excluded p, x)) ++
    (t.excludedDependents.get p).map (fun x => (.excludedDependents p, x))) ++
  ruleMentions 0 t.rules ++
  t.skipped.map (fun x => (.skipped, x)) ++
  t.unlisted.map (fun x => (.unlisted, x)) ++
  t.sentinel.toList.map (fun x => (.sentinel, x))

/-- the mentions of unknown names among the given ones -/
def unknownAmong (t : Tables) (ms : List (Place × String)) : List Offence :=
  (ms.filter fun m => ¬ t.Known m.2).map fun m => .unknown m.1 m.2

/-- the names that are a runtime's and a project's -/
def sharedNames (t : Tables) : List String :=
  (distinct t.runtimes).filter fun x => x ∈ t.projects

/-- the projects in the lists of runtimes -/
def misplacedProjects (t : Tables) : List Offence :=
  TableName.ofRuntimes.flatMap fun n =>
    (t.table n).flatMap fun e => (e.2.filter fun x => x ∈ t.projects).map fun x => .notRuntime n e.1 x

/-- everything that is wrong with the names of the tables -/
def offences (t : Tables) : List Offence :=
  t.sharedNames.map .both ++
  t.unknownAmong t.tableMentions ++
  t.misplacedProjects ++
  t.unknownAmong t.otherMentions

end Tables

end ChangeImpact
