/-
Cleaning a path that is clean.

The blank characters around a path are taken off before its segments are found, and nothing looks for them afterwards.
When a piece at one end is left out, a blank character of the piece next to it comes to stand at that end. Such a path is
not settled: cleaned again it becomes another, shorter path, which may have other segments and belong to other projects.
In the same way a path of blank characters alone can come out of a path that is not blank.

A clean path that is cleaned again never grows, and it keeps its length only if nothing changes. So a change with the
same clean paths after a second cleaning has settled paths only: of those that are not settled, a longest one could not
come from any other.

Results:
- `settled_iff`, `clean_clean_iff`: cleaning a second time changes nothing iff the segments neither begin nor end with a
  blank character.
- `length_clean_lt`: otherwise the path becomes shorter.
- `settled_of_kept`: a file is settled when the pieces at its ends are not left out.
- `trim_clean_eq_empty_iff`: a clean path is blank iff it is a single blank segment.
- `cleanAll_again`: when a change cleaned a second time is the same change with the same scope, and when it has no blank
  path.
- `cleanAll_again_dotted`: a change that becomes another one, and one with a blank path.
-/
import Mathlib.Data.Finset.Max
import ChangeImpact.Proofs.Selection.Cleaned
import ChangeImpact.Proofs.Selection.Shell
import ChangeImpact.Proofs.Text.Joined
import ChangeImpact.Proofs.Text.LineEnds
import ChangeImpact.Proofs.Text.Trimmed

namespace ChangeImpact

open ChangeImpact.Text

variable {file : String} {files : List String}

/-! ## Characters of a clean path -/

theorem backslash_not_mem_slashed (path : String) : '\\' ∉ (slashed path).toList := by
  rw [slashed, String.toList_ofList]
  intro h
  obtain ⟨c, -, hc⟩ := List.mem_map.mp h
  split at hc
  · exact absurd hc (by decide)
  · next hne => exact hne hc

theorem mem_of_mem_segments {path s : String} (hs : s ∈ segments path) {c : Char} (hc : c ∈ s.toList) :
    c ∈ path.toList := by
  obtain ⟨p, hp, rfl⟩ := List.mem_map.mp (List.mem_filter.mp hs).1
  rw [String.toList_ofList] at hc
  rw [← joinPieces_pieces '/' path.toList]
  exact mem_joinPieces hp hc

theorem backslash_not_mem_clean (file : String) : '\\' ∉ (clean file).toList := by
  intro h
  rcases mem_joined h with hslash | ⟨s, hs, hc⟩
  · exact absurd hslash (by decide)
  · exact backslash_not_mem_slashed file (mem_of_mem_segments hs hc)

/-- in a path without backslashes there is nothing to turn into slashes -/
theorem slashed_eq_trim {path : String} (h : '\\' ∉ path.toList) : slashed path = trim path := by
  have hkept : ∀ c ∈ (trim path).toList, (if c = '\\' then '/' else c) = c := by
    intro c hc
    rw [trim, String.toList_ofList] at hc
    refine if_neg ?_
    rintro rfl
    exact h ((strip_sublist _).subset hc)
  rw [slashed, List.map_congr_left hkept, List.map_id', String.ofList_toList]

/-! ## Length -/

theorem length_clean_le (path : String) : (clean path).toList.length ≤ (trim path).toList.length := by
  have hsub : ((segments (slashed path)).map String.toList).Sublist (pieces '/' (slashed path).toList) := by
    rw [← toList_splitAt]
    exact List.filter_sublist.map _
  calc (clean path).toList.length
      = (joinPieces '/' ((segments (slashed path)).map String.toList)).length := by
        rw [clean, joinSegments, String.toList_ofList]
    _ ≤ (joinPieces '/' (pieces '/' (slashed path).toList)).length := length_joinPieces_le hsub
    _ = (slashed path).toList.length := by rw [joinPieces_pieces]
    _ = (trim path).toList.length := by rw [slashed, String.toList_ofList, List.length_map]

theorem trim_eq_self_of_length {path : String} (h : path.toList.length ≤ (trim path).toList.length) :
    trim path = path := by
  rw [trim, String.toList_ofList] at h
  rw [trim, (strip_sublist _).eq_of_length_le h, String.ofList_toList]

/-! ## Settled files -/

/-- no blank character stands at the beginning of the first segment or at the end of the last one -/
structure Settled (file : String) : Prop where
  first : ∀ s ∈ (segments (slashed file)).head?, ∀ c ∈ s.toList.head?, isBlank c = false
  last : ∀ s ∈ (segments (slashed file)).getLast?, ∀ c ∈ s.toList.getLast?, isBlank c = false

/-- the first and the last character of joined texts, when neither the first nor the last text is empty -/
theorem ends_joined (separator : Char) {texts : List String} (hfirst : ∀ t ∈ texts.head?, t ≠ "")
    (hlast : ∀ t ∈ texts.getLast?, t ≠ "") :
    (joined separator texts).toList.head? = texts.head?.bind (fun t => t.toList.head?) ∧
      (joined separator texts).toList.getLast? = texts.getLast?.bind fun t => t.toList.getLast? := by
  have hpiece : ∀ o : Option String, (∀ t ∈ o, t ≠ "") → ∀ p ∈ o.map String.toList, p ≠ [] := by
    intro o ho p hp
    obtain ⟨t, ht, rfl⟩ := Option.mem_map.mp hp
    exact fun hnil => ho t ht (String.toList_eq_nil_iff.mp hnil)
  rw [joined, String.toList_ofList, head?_joinPieces, getLast?_joinPieces, List.head?_map, List.getLast?_map,
    Option.bind_map, Option.bind_map]
  · exact ⟨rfl, rfl⟩
  · rw [List.getLast?_map]
    exact hpiece _ hlast
  · rw [List.head?_map]
    exact hpiece _ hfirst

theorem trim_eq_self_iff {text : String} :
    trim text = text ↔
      (∀ c ∈ text.toList.head?, isBlank c = false) ∧ ∀ c ∈ text.toList.getLast?, isBlank c = false := by
  rw [← strip_eq_self_iff, trim, ← String.toList_inj, String.toList_ofList]

/-- the files whose clean paths have no blank characters around them -/
theorem settled_iff : Settled file ↔ trim (clean file) = clean file := by
  have hne : ∀ s ∈ segments (slashed file), s ≠ "" := fun s hs => (of_mem_segments hs).1.1
  obtain ⟨hhead, hlast⟩ := ends_joined '/' (fun s hs => hne s (List.mem_of_mem_head? hs))
    fun s hs => hne s (List.mem_of_mem_getLast? hs)
  rw [trim_eq_self_iff, clean_eq_joined, hhead, hlast]
  simp only [Option.mem_bind_iff]
  constructor
  · intro h
    refine ⟨?_, ?_⟩
    · rintro c ⟨s, hs, hc⟩
      exact h.first s hs c hc
    · rintro c ⟨s, hs, hc⟩
      exact h.last s hs c hc
  · rintro ⟨hfirst, hlast⟩
    exact ⟨fun s hs c hc => hfirst c ⟨s, hs, hc⟩, fun s hs c hc => hlast c ⟨s, hs, hc⟩⟩

/-- cleaning a second time changes nothing for settled files, and something for all others -/
theorem clean_clean_iff : clean (clean file) = clean file ↔ Settled file := by
  rw [settled_iff]
  constructor
  · intro h
    apply trim_eq_self_of_length
    calc (clean file).toList.length
        = (clean (clean file)).toList.length := by rw [h]
      _ ≤ (trim (clean file)).toList.length := length_clean_le _
  · intro h
    have hslashed : slashed (clean file) = clean file := by
      rw [slashed_eq_trim (backslash_not_mem_clean file), h]
    rw [clean_eq_joined, hslashed, segments_clean, ← clean_eq_joined]

/-- a clean path that changes when it is cleaned again becomes shorter -/
theorem length_clean_lt (h : clean (clean file) ≠ clean file) :
    (clean (clean file)).toList.length < (clean file).toList.length := by
  by_contra hlonger
  apply h
  rw [clean_clean_iff, settled_iff]
  apply trim_eq_self_of_length
  calc (clean file).toList.length
      ≤ (clean (clean file)).toList.length := Nat.le_of_not_lt hlonger
    _ ≤ (trim (clean file)).toList.length := length_clean_le _

/-! ## Files of which the ends are kept -/

theorem slashed_ends (file : String) :
    (∀ c ∈ (slashed file).toList.head?, isBlank c = false) ∧
      ∀ c ∈ (slashed file).toList.getLast?, isBlank c = false := by
  obtain ⟨hfirst, hlast⟩ := trim_eq_self_iff.mp (trim_trim file)
  have hslash : ∀ c, isBlank c = false → isBlank (if c = '\\' then '/' else c) = false := by
    intro c hc
    split
    · decide
    · exact hc
  rw [slashed, String.toList_ofList, List.head?_map, List.getLast?_map]
  refine ⟨?_, ?_⟩
  · intro c hc
    obtain ⟨d, hd, rfl⟩ := Option.mem_map.mp hc
    exact hslash d (hfirst d hd)
  · intro c hc
    obtain ⟨d, hd, rfl⟩ := Option.mem_map.mp hc
    exact hslash d (hlast d hd)

section Kept

variable {texts : List String} {keep : String → Bool}

theorem head?_filter_of_kept (h : ∀ t ∈ texts.head?, keep t = true) : (texts.filter keep).head? = texts.head? := by
  cases texts with
  | nil => rfl
  | cons t ts =>
    rw [List.filter_cons_of_pos (h t rfl)]
    rfl

theorem getLast?_filter_of_kept (h : ∀ t ∈ texts.getLast?, keep t = true) :
    (texts.filter keep).getLast? = texts.getLast? := by
  rw [← List.head?_reverse] at h ⊢
  rw [← List.head?_reverse, ← List.filter_reverse]
  exact head?_filter_of_kept h

end Kept

/-- a file is settled when neither its first piece nor its last one is left out -/
theorem settled_of_kept (hfirst : ∀ piece ∈ (splitAt '/' (slashed file)).head?, piece ≠ "" ∧ piece ≠ ".")
    (hlast : ∀ piece ∈ (splitAt '/' (slashed file)).getLast?, piece ≠ "" ∧ piece ≠ ".") : Settled file := by
  obtain ⟨hhead, hend⟩ := ends_joined '/' (fun p hp => (hfirst p hp).1) fun p hp => (hlast p hp).1
  rw [joined_splitAt] at hhead hend
  obtain ⟨hbegins, hends⟩ := slashed_ends file
  have hfirstSegment : (segments (slashed file)).head? = (splitAt '/' (slashed file)).head? :=
    head?_filter_of_kept fun p hp => decide_eq_true (hfirst p hp)
  have hlastSegment : (segments (slashed file)).getLast? = (splitAt '/' (slashed file)).getLast? :=
    getLast?_filter_of_kept fun p hp => decide_eq_true (hlast p hp)
  refine ⟨fun s hs c hc => hbegins c ?_, fun s hs c hc => hends c ?_⟩
  · rw [hhead, Option.mem_bind_iff, ← hfirstSegment]
    exact ⟨s, hs, hc⟩
  · rw [hend, Option.mem_bind_iff, ← hlastSegment]
    exact ⟨s, hs, hc⟩

/-! ## Changes -/

/-- a function that finds every member of a set among its values on the set, and whose values are shorter where they
differ, changes no member -/
theorem fixed_of_covers {s : NameSet} {f : String → String} (hcovers : ∀ x ∈ s, ∃ y ∈ s, f y = x)
    (hshorter : ∀ x ∈ s, f x ≠ x → (f x).toList.length < x.toList.length) : ∀ x ∈ s, f x = x := by
  intro x hx
  by_contra hmoved
  let moved := s.names.toFinset.filter fun y => f y ≠ y
  have hmem : ∀ y, y ∈ moved ↔ y ∈ s ∧ f y ≠ y := by
    intro y
    rw [Finset.mem_filter, List.mem_toFinset, NameSet.mem_names]
  obtain ⟨z, hz, hlongest⟩ := moved.exists_max_image (fun y => y.toList.length) ⟨x, (hmem x).mpr ⟨hx, hmoved⟩⟩
  obtain ⟨hzs, hzm⟩ := (hmem z).mp hz
  -- a longest member that changes is the value of a longer one
  obtain ⟨y, hy, rfl⟩ := hcovers z hzs
  have hym : f y ≠ y := by
    intro hfixed
    rw [hfixed] at hzm
    exact hzm hfixed
  exact absurd (hlongest y ((hmem y).mpr ⟨hy, hym⟩)) (Nat.not_le_of_lt (hshorter y hy hym))

theorem cleanAll_cleanAll_iff : cleanAll (cleanAll files).names = cleanAll files ↔ ∀ f ∈ files, Settled f := by
  simp only [← clean_clean_iff]
  constructor
  · intro h f hf
    by_cases hnone : clean f = ""
    · rw [hnone]
      rfl
    · have hfixed : ∀ p ∈ cleanAll files, clean p = p := by
        refine fixed_of_covers ?_ ?_
        · intro p hp
          rw [← h] at hp
          exact (mem_cleanAll.mp hp).2
        · intro p hp
          obtain ⟨-, g, -, rfl⟩ := mem_cleanAll.mp hp
          exact length_clean_lt
      exact hfixed (clean f) (mem_cleanAll.mpr ⟨hnone, f, hf, rfl⟩)
  · intro h
    ext p
    rw [mem_cleanAll]
    constructor
    · rintro ⟨-, q, hq, rfl⟩
      obtain ⟨-, f, hf, rfl⟩ := mem_cleanAll.mp hq
      rw [h f hf]
      exact hq
    · intro hp
      obtain ⟨hne, f, hf, rfl⟩ := mem_cleanAll.mp hp
      exact ⟨hne, clean f, hp, h f hf⟩

/-! ## Blank paths -/

/-- a clean path is blank iff it is a single segment that is blank -/
theorem trim_clean_eq_empty_iff (h : clean file ≠ "") :
    trim (clean file) = "" ↔ ∃ s, segments (slashed file) = [s] ∧ trim s = "" := by
  have hone : ∀ s, segments (slashed file) = [s] → clean file = s := by
    intro s hs
    rw [clean_eq_joined, hs]
    simp [joined, joinPieces]
  constructor
  · intro hblank
    cases hs : segments (slashed file) with
    | nil => exact absurd (clean_eq_empty_iff.mpr hs) h
    | cons s rest =>
      cases rest with
      | nil =>
        rw [hone s hs] at hblank
        exact ⟨s, rfl, hblank⟩
      | cons t rest =>
        -- the slash between two segments is not blank
        have hslash : '/' ∈ (clean file).toList := by
          rw [clean_eq_joined, hs, toList_joined_cons]
          simp
        have hstrip : strip (clean file).toList = [] := String.ofList_eq_empty_iff.mp hblank
        exact absurd (isBlank_of_strip_eq_nil hstrip '/' hslash) (by decide)
  · rintro ⟨s, hs, hblank⟩
    rw [hone s hs, hblank]

theorem no_blank_iff :
    (∀ path ∈ cleanAll files, trim path ≠ "") ↔ ∀ f ∈ files, ∀ s, HasSegments f [s] → trim s ≠ "" := by
  simp only [hasSegments_iff]
  constructor
  · intro h f hf s hs hblank
    have hsome : clean f ≠ "" := by
      intro hnone
      rw [clean_eq_empty_iff.mp hnone] at hs
      contradiction
    exact h (clean f) (mem_cleanAll.mpr ⟨hsome, f, hf, rfl⟩) ((trim_clean_eq_empty_iff hsome).mpr ⟨s, hs, hblank⟩)
  · intro h p hp hblank
    obtain ⟨hsome, f, hf, rfl⟩ := mem_cleanAll.mp hp
    obtain ⟨s, hs, hempty⟩ := (trim_clean_eq_empty_iff hsome).mp hblank
    exact h f hf s hs hempty

/-! ## The whole of it -/

/-- **Cleaning a second time changes nothing for settled files only.** For all changed files: their clean paths are the same
after a second cleaning iff every file is settled, and then and only then the scope worked out from the clean paths is the
scope of the files, under every model and on every platform. No clean path is blank iff no file has a blank segment for its
only one. Files are settled when the pieces at their ends are not left out. -/
theorem cleanAll_again (files : List String) :
    (cleanAll (cleanAll files).names = cleanAll files ↔ ∀ f ∈ files, Settled f) ∧
    (∀ (m : Model) (platform : String),
      m.scope (m.scope files platform).files.names platform = m.scope files platform ↔ ∀ f ∈ files, Settled f) ∧
    ((∀ path ∈ cleanAll files, trim path ≠ "") ↔ ∀ f ∈ files, ∀ s, HasSegments f [s] → trim s ≠ "") ∧
    (∀ file, (∀ piece ∈ (splitAt '/' (slashed file)).head?, piece ≠ "" ∧ piece ≠ ".") →
      (∀ piece ∈ (splitAt '/' (slashed file)).getLast?, piece ≠ "" ∧ piece ≠ ".") → Settled file) := by
  refine ⟨cleanAll_cleanAll_iff, fun m platform => ?_, no_blank_iff, fun _ => settled_of_kept⟩
  rw [← cleanAll_cleanAll_iff]
  constructor
  · intro h
    exact congrArg Scope.files h
  · intro h
    exact m.scope_eq_of_cleanAll h platform

/-- a blank character behind a left out dot: the path of a change becomes another one and belongs to another project, and a
path that is not blank becomes a blank one -/
theorem cleanAll_again_dotted :
    cleanAll (cleanAll ["./ a"]).names ≠ cleanAll ["./ a"] ∧
    "clang" ∉ Bundled.model.touched (cleanAll ["./ clang/a.c"]).names ∧
    "clang" ∈ Bundled.model.touched (cleanAll (cleanAll ["./ clang/a.c"]).names).names ∧
    " " ∈ cleanAll ["./ /"] ∧ trim " " = "" := by
  decide +kernel

end ChangeImpact
