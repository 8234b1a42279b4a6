/-
When a change to the bundled tables' repository turns the sentinel on.

The sentinel is looked for at the far end of a selection, among all that is built. No bundled table lists
it as a dependency, so it is built only if it is tested, and it is tested only for itself and for the
continuous integration, which is on no platform excluded. So the question comes down to the files one by
one: who of these two owns one.

Results:
- `sentinel_iff_touched`: the sentinel is on iff one of the two is touched.
- `owners_iff_callsForSentinel`: who owns a file, by the file's segments.
- `sentinel_bundled`: for all changes and platforms, the setting by the segments of the changed files.
-/
import ChangeImpact.Proofs.Selection.Excluded
import ChangeImpact.Proofs.Selection.Owners
import ChangeImpact.Proofs.Tables.Contents

namespace ChangeImpact

open ChangeImpact.Text

namespace Bundled

/-! ## The files -/

/-- directories at the top whose files call for the sentinel -/
def sentinelDirectories : List String :=
  ["CIR", ".ci", "third-party"]

/-- deeper paths below which files call for the sentinel -/
def sentinelPaths : List (List String) :=
  [["clang", "lib", "CIR"], ["clang", "test", "CIR"], ["clang", "include", "clang", "CIR"],
   [".github", "workflows", "premerge.yaml"]]

/-- a file with these segments calls for the sentinel: it is no documentation of its directory, and it lies in one of the
directories or below one of the paths -/
def CallsForSentinel (path : List String) : Prop :=
  path[1]? ≠ some "docs" ∧
  ((∃ directory ∈ sentinelDirectories, path[0]? = some directory) ∨ ∃ top ∈ sentinelPaths, top <+: path)

/-! ## The rules -/

theorem covers_docs {path : List String} : covers ["*", "docs"] path = true ↔ path[1]? = some "docs" := by
  rw [covers_iff]
  constructor
  · intro h
    obtain ⟨s, hs, hp⟩ := h 1 "docs" rfl
    obtain rfl : "docs" = s := hp.resolve_left (by decide)
    exact hs
  · intro h i p hp
    have hlong : 1 < path.length := (List.getElem?_eq_some_iff.mp h).1
    match i with
    | 0 =>
      obtain rfl : "*" = p := Option.some.inj hp
      exact ⟨path[0], List.getElem?_eq_getElem (by omega), .inl rfl⟩
    | 1 =>
      obtain rfl : "docs" = p := Option.some.inj hp
      exact ⟨"docs", h, .inr rfl⟩
    | _ + 2 => simp at hp

/-- the paths that no rule skips -/
theorem unskipped_iff {path : List String} :
    (∀ r ∈ model.rules, covers r.segments path = true → r.project ∉ model.skipped) ↔
      path[1]? ≠ some "docs" ∧ ¬ ["llvm", "utils", "gn"] <+: path := by
  have hskipped : ∀ x, x ∈ model.skipped ↔ x ∈ ["docs", "gn"] := fun x => NameSet.mem_ofList
  change (∀ r ∈ rules, _) ↔ _
  simp [hskipped, rules, covers_docs, covers_iff_isPrefix, wildcard]

/-- the paths that a rule gives to the sentinel -/
theorem ruled_sentinel_iff {path : List String} :
    (∃ r ∈ model.rules, covers r.segments path = true ∧ r.project = "CIR") ↔
      ["clang", "lib", "CIR"] <+: path ∨ ["clang", "test", "CIR"] <+: path ∨
        ["clang", "include", "clang", "CIR"] <+: path := by
  change (∃ r ∈ rules, _) ↔ _
  simp [rules, covers_iff_isPrefix, wildcard]

/-- the paths that a rule gives to the continuous integration -/
theorem ruled_integration_iff {path : List String} :
    (∃ r ∈ model.rules, covers r.segments path = true ∧ r.project = ".ci") ↔
      [".github", "workflows", "premerge.yaml"] <+: path ∨ ["third-party"] <+: path := by
  change (∃ r ∈ rules, _) ↔ _
  simp [rules, covers_iff_isPrefix, wildcard]

theorem singleton_isPrefix_iff {first : String} {path : List String} : [first] <+: path ↔ path[0]? = some first := by
  cases path with
  | nil => simp
  | cons s ss => simp [List.cons_prefix_cons, eq_comm]

theorem head_of_isPrefix {first : String} {rest path : List String} (h : first :: rest <+: path) :
    path[0]? = some first := by
  obtain ⟨after, rfl⟩ := h
  rfl

/-- the sentinel or the continuous integration owns a file iff the file's segments call for the sentinel -/
theorem owners_iff_callsForSentinel {path : List String} :
    ("CIR" ∈ model.ownersOf path ∨ ".ci" ∈ model.ownersOf path) ↔ CallsForSentinel path := by
  have howners : ("CIR" ∈ model.ownersOf path ∨ ".ci" ∈ model.ownersOf path) ↔
      (path[1]? ≠ some "docs" ∧ ¬ ["llvm", "utils", "gn"] <+: path) ∧
      ((∃ directory ∈ sentinelDirectories, path[0]? = some directory) ∨ ∃ top ∈ sentinelPaths, top <+: path) := by
    simp only [Model.mem_ownersOf, unskipped_iff, ruled_sentinel_iff, ruled_integration_iff, singleton_isPrefix_iff,
      List.head?_eq_getElem?, ← and_or_left, sentinelDirectories, sentinelPaths, List.exists_mem_cons_iff]
    refine and_congr_right fun _ => ?_
    cases path with
    | nil => simp
    | cons s ss =>
      simp only [ne_eq, reduceCtorEq, not_false_eq_true, true_and, List.not_mem_nil, false_and, exists_const, or_false]
      tauto
  rw [howners, CallsForSentinel]
  constructor
  · rintro ⟨⟨hdocs, -⟩, hplace⟩
    exact ⟨hdocs, hplace⟩
  · rintro ⟨hdocs, hplace⟩
    refine ⟨⟨hdocs, fun hgn => ?_⟩, hplace⟩
    -- what the other skip rule covers begins otherwise
    have hllvm : path[0]? = some "llvm" := head_of_isPrefix hgn
    rcases hplace with ⟨directory, hd, hfirst⟩ | ⟨top, ht, hprefix⟩
    · obtain rfl : directory = "llvm" := Option.some.inj (hfirst.symm.trans hllvm)
      exact absurd hd (by decide)
    · have hfirst : ∀ top ∈ sentinelPaths, top[0]? ≠ some "llvm" ∧ top ≠ [] := by decide
      obtain ⟨hother, hne⟩ := hfirst top ht
      obtain ⟨first, rest, rfl⟩ := List.exists_cons_of_ne_nil hne
      exact hother ((head_of_isPrefix hprefix).symm.trans hllvm)

/-! ## The selection -/

theorem not_dependency (key : String) : "CIR" ∉ model.dependencies.members key := by
  have hlists : ∀ e ∈ dependencies, "CIR" ∉ e.2 := by decide
  intro h
  obtain ⟨names, hm, hx⟩ := NameLists.mem_of_mem_members_toTable h
  exact hlists _ hm hx

theorem mem_members_dependents_iff {key : String} : "CIR" ∈ model.dependents.members key ↔ key = ".ci" := by
  have hlists : ∀ e ∈ dependents, "CIR" ∈ e.2 → e.1 = ".ci" := by decide
  have hlisted : ∃ e ∈ dependents, e.1 = ".ci" ∧ "CIR" ∈ e.2 := by decide
  have hmembers : ∀ key, "CIR" ∈ model.dependents.members key ↔ ∃ names, (key, names) ∈ dependents ∧ "CIR" ∈ names :=
    fun _ => NameLists.mem_members_toTable (by decide)
  rw [hmembers]
  constructor
  · rintro ⟨names, hm, hx⟩
    exact hlists _ hm hx
  · rintro rfl
    obtain ⟨⟨_, names⟩, hm, rfl, hx⟩ := hlisted
    exact ⟨names, hm, hx⟩

/-- no platform excludes the sentinel, neither for itself nor as a dependent -/
theorem not_excluded (platform : String) :
    "CIR" ∉ model.excluded.setFor platform ∧ "CIR" ∉ model.excludedDependents.setFor platform := by
  have hlists : ∀ p : Platform, "CIR" ∉ tables.excluded.get p ∧ "CIR" ∉ tables.excludedDependents.get p := by
    intro p
    cases p <;> decide
  constructor
  · rintro ⟨p, -, hx⟩
    exact (hlists p).1 (Model.mem_excluded_bundled.mp hx)
  · rintro ⟨p, -, hx⟩
    rw [model, Model.ofTables, PerPlatform.get_map, NameSet.mem_ofList] at hx
    exact (hlists p).2 hx

theorem tested_iff_touched {touched : NameSet} {platform : String} :
    "CIR" ∈ model.testedProjects touched platform ↔ "CIR" ∈ touched ∨ ".ci" ∈ touched := by
  obtain ⟨hexcluded, hdependent⟩ := not_excluded platform
  have hruntimes : ∀ x ∈ ["CIR", ".ci"], x ∉ model.runtimes := by
    have hlist : ∀ x ∈ ["CIR", ".ci"], x ∉ runtimes := by decide
    exact fun x hx hr => hlist x hx (NameSet.mem_ofList.mp hr)
  have htarget : (model.checkTargets.get? "CIR").isSome := by
    change ((Table.ofEntries checkTargets).get? "CIR").isSome
    rw [Table.get?_ofEntries]
    decide
  rw [Model.mem_testedProjects, and_iff_left hexcluded]
  constructor
  · rintro ⟨y, hy, -, ⟨rfl, -⟩ | ⟨hd, -⟩⟩
    · exact .inl hy
    · exact .inr (mem_members_dependents_iff.mp hd ▸ hy)
  · rintro (hy | hy)
    · exact ⟨"CIR", hy, hruntimes _ (by decide), .inl ⟨rfl, htarget⟩⟩
    · exact ⟨".ci", hy, hruntimes _ (by decide), .inr ⟨mem_members_dependents_iff.mpr rfl, hdependent⟩⟩

/-- the sentinel is on iff the sentinel's project or the continuous integration is touched -/
theorem sentinel_iff_touched {touched : NameSet} {platform : String} :
    (model.select touched platform).sentinel = true ↔ "CIR" ∈ touched ∨ ".ci" ∈ touched := by
  have hsentinel : (model.select touched platform).sentinel = true ↔ "CIR" ∈ model.buildingFor touched platform := by
    rw [Model.sentinel_select]
    exact ⟨fun ⟨c, hc, hb⟩ => Option.some.inj hc ▸ hb, fun hb => ⟨"CIR", rfl, hb⟩⟩
  rw [hsentinel, Model.buildingFor, Model.mem_buildList, ← @tested_iff_touched touched platform]
  constructor
  · rintro (⟨p, hp, hreach⟩ | ⟨r, -, hstep⟩)
    · -- nothing leads to the sentinel, so it was reached in no steps
      cases hreach with
      | refl => exact hp
      | tail _ hstep => exact absurd hstep (not_dependency _)
    · exact absurd hstep (not_dependency r)
  · intro h
    exact .inl ⟨"CIR", h, .refl⟩

/-! ## Changes -/

/-- **When the sentinel is on.** Under the bundled tables, for every change and every platform, the sentinel's setting is
`ON` iff the segments of some changed file call for it, and `OFF` otherwise. -/
theorem sentinel_bundled (files : List String) (platform : String) :
    ((model.scope files platform).environment.sentinel = "ON" ↔ ∃ f ∈ files, CallsForSentinel (segments (slashed f))) ∧
    ((model.scope files platform).environment.sentinel = "OFF" ↔ ¬ ∃ f ∈ files, CallsForSentinel (segments (slashed f))) := by
  let on := (model.select (model.touched (cleanAll files).names) platform).sentinel
  have hfiles : on = true ↔ ∃ f ∈ files, CallsForSentinel (segments (slashed f)) := by
    rw [sentinel_iff_touched, Model.mem_touched_cleanAll, Model.mem_touched_cleanAll]
    simp only [← owners_iff_callsForSentinel, ← segments_clean, ← exists_or, ← and_or_left]
    rfl
  have hsetting : (model.scope files platform).environment.sentinel = if on then "ON" else "OFF" := rfl
  rw [← hfiles, hsetting]
  cases on <;> decide

end Bundled

end ChangeImpact
