/-
What a change needs tested and built.

`Model.select` takes the names that a change touches and a platform. A touched project that has a
check target is tested, and so is every dependent of a touched project; a touched runtime does
neither. Runtimes are tested and built as their tables say. What the platform excludes is taken out
of these before the build list is made, so a build may bring an excluded name back in as a
dependency. The sentinel is looked for in the build list before the names that are not listed are
dropped from it.
-/
import ChangeImpact.Selection.Closure
import ChangeImpact.Tables.Model

namespace ChangeImpact

structure Selection where
  tested : NameSet
  built : NameSet
  runtimesTested : NameSet
  runtimesReconfigured : NameSet
  runtimesBuilt : NameSet
  sentinel : Bool
  deriving DecidableEq

namespace Model

/-- the set that belongs to a platform, empty for a name that is no platform's -/
def onPlatform (t : PerPlatform NameSet) (platform : String) : NameSet :=
  (t.named platform).getD ∅

/-- the tests that one touched name asks for -/
def testedFor (m : Model) (platform : String) (x : String) : NameSet :=
  if x ∈ m.runtimes then ∅
  else
    (if (m.checkTargets.get? x).isSome then .ofList [x] else ∅) ∪
      (m.dependents.members x).without (onPlatform m.excludedDependents platform)

/-- the tests that the touched names ask for -/
def testedProjects (m : Model) (touched : NameSet) (platform : String) : NameSet :=
  (touched.gather (m.testedFor platform)).without (onPlatform m.excluded platform)

/-- the runtimes that a table gives to the touched names -/
def runtimesOf (m : Model) (table : NameTable) (touched : NameSet) (platform : String) : NameSet :=
  (touched.gather table.members).without (onPlatform m.excluded platform)

/-- all that is built for the tested projects and the runtimes: the dependencies of a runtime are not
followed further -/
def buildList (m : Model) (tested runtimesBuilt : NameSet) : NameSet :=
  closure m.dependencies tested ∪ runtimesBuilt.gather m.dependencies.members

/-- everything that a change which touches these names needs on a platform -/
def select (m : Model) (touched : NameSet) (platform : String) : Selection :=
  let tested := m.testedProjects touched platform
  let runtimesTested := m.runtimesOf m.runtimesTested touched platform
  let runtimesReconfigured := m.runtimesOf m.runtimesReconfigured touched platform
  let runtimesBuilt := runtimesTested ∪ runtimesReconfigured ∪ m.runtimesOf m.runtimesBuilt touched platform
  let building := m.buildList tested runtimesBuilt
  { tested
    built := building.without m.unlisted
    runtimesTested
    runtimesReconfigured
    runtimesBuilt
    sentinel := m.sentinel.any (· ∈ building) }

end Model

end ChangeImpact
