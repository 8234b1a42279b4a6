/-
The model: tables whose names have been checked, as sets.

`Model.ofTables` forgets order and repetition. `Model.ofValue` is the way from a value to a model:
it is refused with every issue of its shape, or, when the shape is right, with every offence of its
names.
-/
import ChangeImpact.Tables.References
import ChangeImpact.Names.Table

namespace ChangeImpact

structure Model where
  projects : NameSet
  runtimes : NameSet
  dependencies : NameTable
  dependents : NameTable
  runtimesBuilt : NameTable
  runtimesTested : NameTable
  runtimesReconfigured : NameTable
  checkTargets : Table String
  excluded : PerPlatform NameSet
  excludedDependents : PerPlatform NameSet
  rules : List Rule
  skipped : NameSet
  unlisted : NameSet
  sentinel : Option String
  deriving DecidableEq

/-- why a value is no configuration -/
inductive Refusal where
  | shape (issues : List Issue)
  | names (offences : List Offence)

def Refusal.message : Refusal → String
  | .shape _ => "Selection config does not match the expected schema."
  | .names _ => "Selection config tables are inconsistent."

/-- one line for each thing that is wrong -/
def Refusal.details : Refusal → List String
  | .shape issues => issues.map Issue.text
  | .names offences => offences.map Offence.text

/-- the set for each key of name lists -/
def NameLists.toTable (lists : NameLists) : NameTable :=
  Table.ofEntries (lists.map fun e => (e.1, NameSet.ofList e.2))

namespace Model

def ofTables (t : Tables) : Model where
  projects := .ofList t.projects
  runtimes := .ofList t.runtimes
  dependencies := t.dependencies.toTable
  dependents := t.dependents.toTable
  runtimesBuilt := t.runtimesBuilt.toTable
  runtimesTested := t.runtimesTested.toTable
  runtimesReconfigured := t.runtimesReconfigured.toTable
  checkTargets := .ofEntries t.checkTargets
  excluded := t.excluded.map .ofList
  excludedDependents := t.excludedDependents.map .ofList
  rules := t.rules
  skipped := .ofList t.skipped
  unlisted := .ofList t.unlisted
  sentinel := t.sentinel

/-- the model of tables without offences -/
def check (t : Tables) : Except Refusal Model :=
  match t.offences with
  | [] => .ok (ofTables t)
  | offences => .error (.names offences)

/-- the model that a value writes down -/
def ofValue (v : Value) : Except Refusal Model :=
  match Tables.read v with
  | .ok t => check t
  | .error issues => .error (.shape issues)

end Model

end ChangeImpact
