/-
Tables and models written down as values again.

`Tables.toValue` writes every field, the sentinel only when there is one; `Model.listing` lists the
members of a model's sets and the entries of its tables in their order.
-/
import ChangeImpact.Tables.Model

namespace ChangeImpact

def namesValue (names : List String) : Value :=
  .array (names.map .string)

def nameListsValue (lists : NameLists) : Value :=
  .object (lists.map fun e => (e.1, namesValue e.2))

def perPlatformValue (t : PerPlatform (List String)) : Value :=
  .object (Platform.all.map fun p => (p.name, namesValue (t.get p)))

def Rule.toValue (r : Rule) : Value :=
  .object [("path", namesValue r.segments), ("project", .string r.project)]

namespace Tables

def toValue (t : Tables) : Value :=
  .object <|
    [("projects", namesValue t.projects),
     ("runtimes", namesValue t.runtimes),
     ("dependencies", nameListsValue t.dependencies),
     ("dependents_to_test", nameListsValue t.dependents),
     ("runtimes_to_build", nameListsValue t.runtimesBuilt),
     ("runtimes_to_test", nameListsValue t.runtimesTested),
     ("runtimes_to_test_needs_reconfig", nameListsValue t.runtimesReconfigured),
     ("check_targets", .object (t.checkTargets.map fun e => (e.1, .string e.2))),
     ("exclusions", perPlatformValue t.excluded),
     ("dependent_exclusions", perPlatformValue t.excludedDependents),
     ("meta_projects", .array (t.rules.map Rule.toValue)),
     ("skip_projects", namesValue t.skipped),
     ("skip_build_projects", namesValue t.unlisted)] ++
    t.sentinel.toList.map fun x => ("cir_project", .string x)

end Tables

/-- the entries of a table of sets, each set as a list -/
def NameTable.lists (t : NameTable) : NameLists :=
  t.entries.map fun e => (e.1, e.2.names)

/-- the tables that list what a model holds -/
def Model.listing (m : Model) : Tables where
  projects := m.projects.names
  runtimes := m.runtimes.names
  dependencies := m.dependencies.lists
  dependents := m.dependents.lists
  runtimesBuilt := m.runtimesBuilt.lists
  runtimesTested := m.runtimesTested.lists
  runtimesReconfigured := m.runtimesReconfigured.lists
  checkTargets := m.checkTargets.entries
  excluded := m.excluded.map NameSet.names
  excludedDependents := m.excludedDependents.map NameSet.names
  rules := m.rules
  skipped := m.skipped.names
  unlisted := m.unlisted.names
  sentinel := m.sentinel

end ChangeImpact
