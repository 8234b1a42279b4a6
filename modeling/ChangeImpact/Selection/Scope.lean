/-
The scope of a change: from its files to the settings.

`Model.scope` puts the steps together, and `Scope.events` is what a log is told of them.
-/
import ChangeImpact.ChangedFile
import ChangeImpact.Selection.Environment
import ChangeImpact.Event

namespace ChangeImpact

structure Scope where
  files : NameSet
  touched : NameSet
  selection : Selection
  environment : Environment
  deriving DecidableEq

namespace Model

/-- the scope of the change that consists of these files -/
def scope (m : Model) (files : List String) (platform : String) : Scope :=
  let files := cleanAll files
  let touched := m.touched files.names
  let selection := m.select touched platform
  { files, touched, selection, environment := .ofSelection m.checkTargets selection }

/-- the scope depends on the one forms of the files only -/
theorem scope_eq_of_cleanAll (m : Model) {files others : List String} (h : cleanAll files = cleanAll others)
    (platform : String) : m.scope files platform = m.scope others platform := by
  unfold scope
  rw [h]

end Model

namespace Scope

/-- the events of working out a scope, in their order -/
def events (s : Scope) (platform : String) : List Event :=
  [⟨"scope.start", some [("platform", .string platform), ("file_count", .ofNat s.files.size)]⟩,
   ⟨"scope.touched", some [("projects", .array (s.touched.names.map .string))]⟩,
   ⟨"scope.complete", some (s.environment.settings.map fun e => (e.1, .string e.2))⟩]

end Scope

end ChangeImpact
