/-
What a cleaned path keeps of the file.

A path is cleaned by taking the blank characters off its ends, turning backslashes into slashes and leaving out the
pieces that say nothing. What is kept are the segments, all of them and in their order, and nothing else about the path
is: files have the same clean path iff they have the same segments (`clean_eq_clean_iff`). Rules look at segments only,
so a clean path has the owners of the path that it was made of.

The segments are told here without a walk over the path. `Pieces` are any texts without slashes that make up the path
with slashes between them, and there is one way only to take a path apart like that.

Results:
- `pieces_iff`, `hasSegments_iff`: cutting at slashes finds the pieces, and the segments among them.
- `clean_eq_empty_iff`, `clean_eq_clean_iff`: which files have no clean path, and which have the same one.
- `owners_clean`: a clean path has the owners of the path with slashes.
- `cleanAll_keeps_segments`: the clean paths of a change, their order and their owners.
-/
import ChangeImpact.Proofs.Selection.Attribution

namespace ChangeImpact

open ChangeImpact.Text

/-! ## Pieces and segments -/

/-- texts that a path is made of: at least one, none with a slash, and with slashes between them they are the path -/
structure Pieces (path : String) (pieces : List String) : Prop where
  ne_nil : pieces ≠ []
  no_slash : ∀ piece ∈ pieces, '/' ∉ piece.toList
  joins : joined '/' pieces = path

/-- the segments of a changed file: without the blank characters around it and with slashes for backslashes it is made of
pieces, of which those count that are neither empty nor a single dot -/
def HasSegments (file : String) (segments : List String) : Prop :=
  ∃ pieces, Pieces (slashed file) pieces ∧ pieces.filter (fun piece => piece ≠ "" ∧ piece ≠ ".") = segments

theorem splitAt_ne_nil (separator : Char) (text : String) : splitAt separator text ≠ [] := by
  intro h
  exact pieces_ne_nil separator text.toList (List.map_eq_nil_iff.mp h)

/-- a path is taken apart in one way only -/
theorem pieces_iff {path : String} {pieces : List String} : Pieces path pieces ↔ splitAt '/' path = pieces := by
  constructor
  · intro h
    rw [← h.joins, splitAt_joined h.no_slash, if_neg h.ne_nil]
  · rintro rfl
    exact ⟨splitAt_ne_nil '/' path, fun _ => slash_not_mem_of_mem_splitAt, joined_splitAt path⟩

theorem hasSegments_iff {file : String} {s : List String} : HasSegments file s ↔ segments (slashed file) = s := by
  unfold HasSegments
  simp only [pieces_iff, exists_eq_left']
  rfl

/-! ## Clean paths -/

theorem clean_eq_joined (file : String) : clean file = joined '/' (segments (slashed file)) := rfl

/-- a file has no clean path iff it has no segments -/
theorem clean_eq_empty_iff {file : String} : clean file = "" ↔ segments (slashed file) = [] := by
  constructor
  · intro h
    have hnone : segments (clean file) = [] := by
      rw [h]
      rfl
    rw [← segments_clean, hnone]
  · intro h
    rw [clean_eq_joined, h]
    rfl

/-- files have the same clean path iff they have the same segments -/
theorem clean_eq_clean_iff {file other : String} :
    clean file = clean other ↔ segments (slashed file) = segments (slashed other) := by
  constructor
  · intro h
    rw [← segments_clean, h, segments_clean]
  · intro h
    rw [clean_eq_joined, h, clean_eq_joined]

theorem mem_cleanAll_singleton {file path : String} : path ∈ cleanAll [file] ↔ path ≠ "" ∧ clean file = path := by
  rw [mem_cleanAll]
  simp

theorem cleanAll_singleton_eq_iff {file other : String} :
    cleanAll [file] = cleanAll [other] ↔ segments (slashed file) = segments (slashed other) := by
  rw [← clean_eq_clean_iff]
  constructor
  · intro h
    have hmem : ∀ path, (path ≠ "" ∧ clean file = path) ↔ (path ≠ "" ∧ clean other = path) := by
      intro path
      rw [← mem_cleanAll_singleton, h, mem_cleanAll_singleton]
    by_cases hnone : clean file = ""
    · by_contra hne
      have hother : clean other ≠ "" := fun he => hne (hnone.trans he.symm)
      exact hne ((hmem (clean other)).mpr ⟨hother, rfl⟩).2
    · exact ((hmem (clean file)).mp ⟨hnone, rfl⟩).2.symm
  · intro h
    ext path
    rw [mem_cleanAll_singleton, mem_cleanAll_singleton, h]

/-- a clean path has the owners of the path with slashes -/
theorem Model.owners_clean (m : Model) (file : String) : m.owners (clean file) = m.owners (slashed file) := by
  unfold owners
  rw [segments_clean]

/-- **Cleaning keeps the segments and nothing else.** The clean paths of a change are strictly ascending in UTF-16 code
units. They are the segments of its files with slashes between them, for all files that have segments; every file has its
segments and no others. Two files give the same clean path iff their segments are the same, and under every model the
owners of a clean path are those of the file with slashes for backslashes and without the blank characters around it. -/
theorem cleanAll_keeps_segments (files : List String) :
    (cleanAll files).names.Pairwise (fun p q => units p < units q) ∧
    (∀ path, path ∈ (cleanAll files).names ↔ ∃ f ∈ files, ∃ s, HasSegments f s ∧ s ≠ [] ∧ joined '/' s = path) ∧
    (∀ file, ∃! s, HasSegments file s) ∧
    (∀ file other s t, HasSegments file s → HasSegments other t → (cleanAll [file] = cleanAll [other] ↔ s = t)) ∧
    (∀ (m : Model) (file path : String), path ∈ cleanAll [file] → m.owners path = m.owners (slashed file)) := by
  refine ⟨?_, fun path => ?_, fun file => ?_, ?_, ?_⟩
  · exact (cleanAll files).ascending.imp fun h => before_iff.mp h
  · simp only [NameSet.mem_names, mem_cleanAll, hasSegments_iff, exists_eq_left']
    constructor
    · rintro ⟨hne, f, hf, rfl⟩
      exact ⟨f, hf, fun hnone => hne (clean_eq_empty_iff.mpr hnone), rfl⟩
    · rintro ⟨f, hf, hsome, rfl⟩
      exact ⟨fun he => hsome (clean_eq_empty_iff.mp he), f, hf, rfl⟩
  · exact ⟨segments (slashed file), hasSegments_iff.mpr rfl, fun s h => (hasSegments_iff.mp h).symm⟩
  · intro file other s t hs ht
    rw [cleanAll_singleton_eq_iff, hasSegments_iff.mp hs, hasSegments_iff.mp ht]
  · intro m file path h
    obtain ⟨-, rfl⟩ := mem_cleanAll_singleton.mp h
    exact m.owners_clean file

end ChangeImpact
