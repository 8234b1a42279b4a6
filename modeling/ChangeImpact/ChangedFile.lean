/-
Changed files and the projects they belong to.

A file is given by a path; what counts of it are its segments, the pieces between slashes that are
neither empty nor a single dot. `clean` writes a path in its one form, with the blank characters
around it gone and every backslash turned into a slash. A file belongs to its first segment and to
the project of every rule whose segments its own begin with, unless one of those projects is
skipped: then it belongs to none. `Model.owners` goes over the rules in their order (`walkRules`), and
stops at the first one that fits and is for a skipped project.
-/
import ChangeImpact.Tables.Model
import ChangeImpact.Text.Lines

namespace ChangeImpact

open ChangeImpact.Text

/-! ## Paths -/

/-- the segments of a path -/
def segments (path : String) : List String :=
  (splitAt '/' path).filter fun s => s ≠ "" ∧ s ≠ "."

/-- pieces with slashes between them -/
def joinSegments (segments : List String) : String :=
  String.ofList (joinPieces '/' (segments.map String.toList))

/-- the path with slashes for backslashes and without the blank characters around it -/
def slashed (path : String) : String :=
  String.ofList ((trim path).toList.map fun c => if c = '\\' then '/' else c)

/-- the one form of a path, empty when it has no segments -/
def clean (path : String) : String :=
  joinSegments (segments (slashed path))

/-- the one forms of all paths that have segments -/
def cleanAll (paths : List String) : NameSet :=
  .ofList ((paths.map clean).filter fun p => p ≠ "")

theorem clean_trim (path : String) : clean (trim path) = clean path := by
  unfold clean slashed
  rw [trim_trim]

/-- the one forms depend only on what is left of each path without the blank characters around it -/
theorem cleanAll_eq_of_trim {paths others : List String} (h : paths.map trim = others.map trim) :
    cleanAll paths = cleanAll others := by
  have hclean : ∀ l : List String, l.map clean = (l.map trim).map clean := by
    intro l
    rw [List.map_map]
    exact List.map_congr_left fun f _ => (clean_trim f).symm
  unfold cleanAll
  rw [hclean, h, ← hclean]

theorem mem_cleanAll {paths : List String} {x : String} :
    x ∈ cleanAll paths ↔ x ≠ "" ∧ ∃ f ∈ paths, clean f = x := by
  simp [cleanAll, and_comm]

/-! ## Rules -/

/-- the segment of a rule that stands for every segment -/
def wildcard : String := "*"

/-- the pattern fits the segments or the beginning of them -/
def covers : List String → List String → Bool
  | [], _ => true
  | _ :: _, [] => false
  | p :: ps, s :: ss => (p = wildcard || p = s) && covers ps ss

/-- goes over rules with the projects that were found before them: a rule that fits the segments adds its project, and
one for a skipped project ends the walk without any -/
def walkRules (skipped : NameSet) (segments : List String) (found : NameSet) : List Rule → Option NameSet
  | [] => some found
  | r :: rest =>
    if covers r.segments segments then
      if r.project ∈ skipped then none else walkRules skipped segments (found ∪ .ofList [r.project]) rest
    else walkRules skipped segments found rest

namespace Model

/-- the projects that a file with these segments belongs to -/
def ownersOf (m : Model) (segments : List String) : NameSet :=
  match segments with
  | [] => ∅
  | first :: _ =>
    match walkRules m.skipped segments ∅ m.rules with
    | some found => found ∪ .ofList [first]
    | none => ∅

/-- the projects that a file belongs to -/
def owners (m : Model) (path : String) : NameSet :=
  m.ownersOf (segments path)

/-- the projects that some of the files belong to -/
def touched (m : Model) (paths : List String) : NameSet :=
  .ofList (paths.flatMap fun p => (m.owners p).names)

@[simp] theorem mem_touched {m : Model} {paths : List String} {x : String} :
    x ∈ m.touched paths ↔ ∃ p ∈ paths, x ∈ m.owners p := by
  simp [touched]

end Model

end ChangeImpact
