/-
A selection as the six settings that build scripts read.

Names are listed with semicolons between them and check targets with single spaces, both in the
order of the names. `Environment.assignments` writes one setting on a line as a quoted assignment,
and `Environment.json` writes all of them as one object; quotes inside a value are not escaped in an
assignment.
-/
import ChangeImpact.Selection.Basic
import ChangeImpact.Text.Lines
import ChangeImpact.Json.Writer

namespace ChangeImpact

structure Environment where
  built : String
  checkTargets : String
  runtimesBuilt : String
  runtimeTargets : String
  reconfiguredTargets : String
  sentinel : String
  deriving DecidableEq

/-- texts with a separator between each two neighbours -/
def joined (separator : Char) (texts : List String) : String :=
  String.ofList (Text.joinPieces separator (texts.map String.toList))

/-- texts that do not have the separator are found again, and where there were none there is the empty text -/
theorem splitAt_joined {separator : Char} {texts : List String} (h : ∀ t ∈ texts, separator ∉ t.toList) :
    Text.splitAt separator (joined separator texts) = if texts = [] then [""] else texts := by
  unfold Text.splitAt joined
  rw [String.toList_ofList]
  cases texts with
  | nil => rfl
  | cons t ts =>
    rw [Text.pieces_joinPieces (by simp) (by simpa using h)]
    simp [Function.comp_def]

/-- the names of a set in their order, with semicolons between them -/
def listed (s : NameSet) : String :=
  joined ';' s.names

/-- the targets of those members that have one, in the order of the members -/
def targetsOf (targets : Table String) (s : NameSet) : List String :=
  s.names.filterMap targets.get?

namespace Environment

def ofSelection (targets : Table String) (s : Selection) : Environment where
  built := listed s.built
  checkTargets := joined ' ' (targetsOf targets s.tested)
  runtimesBuilt := listed s.runtimesBuilt
  runtimeTargets := joined ' ' (targetsOf targets s.runtimesTested)
  reconfiguredTargets := joined ' ' (targetsOf targets s.runtimesReconfigured)
  sentinel := if s.sentinel then "ON" else "OFF"

/-- the settings under their names, in their fixed order -/
def settings (e : Environment) : List (String × String) :=
  [("projects_to_build", e.built),
   ("project_check_targets", e.checkTargets),
   ("runtimes_to_build", e.runtimesBuilt),
   ("runtimes_check_targets", e.runtimeTargets),
   ("runtimes_check_targets_needs_reconfig", e.reconfiguredTargets),
   ("enable_cir", e.sentinel)]

/-- one setting as a shell reads it -/
def assignment (name value : String) : String :=
  name ++ "='" ++ value ++ "'"

def assignments (e : Environment) : List String :=
  e.settings.map fun s => assignment s.1 s.2

def toValue (e : Environment) : Value :=
  .object (e.settings.map fun s => (s.1, .string s.2))

/-- the settings as an object spread over several lines -/
def json (e : Environment) : String :=
  String.ofList (Json.writeLines e.settings)

end Environment

end ChangeImpact
