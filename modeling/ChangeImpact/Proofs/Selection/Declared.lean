/-
The selection as a set of equations.

`Model.select` works in steps: it gathers, takes out what the platform excludes, closes over the
dependencies, adds the runtimes' own dependencies and drops what is not listed. `Model.Declares` says
the same of a selection without an order of steps, one equation between sets for each part.

Results:
- `mem_testedProjects`, `mem_runtimesOf`, `mem_buildList`: membership in what each step makes.
- `select_eq_iff_declares`: the selection is the only one that the equations hold of, on every model
  (cyclic dependencies included), every set of touched names and every platform.
-/
import Mathlib.Data.Set.Basic
import ChangeImpact.Proofs.Selection.Reachable
import ChangeImpact.Selection.Basic

namespace ChangeImpact

/-! ## Sets -/

/-- the members of a set of names -/
def NameSet.toSet (s : NameSet) : Set String := {x | x ∈ s}

@[simp] theorem NameSet.mem_toSet {s : NameSet} {x : String} : x ∈ s.toSet ↔ x ∈ s := Iff.rfl

theorem NameSet.toSet_injective {a b : NameSet} (h : a.toSet = b.toSet) : a = b :=
  NameSet.ext fun x => Set.ext_iff.mp h x

/-- what belongs to the platform of that name, nothing when the name is no platform's -/
def PerPlatform.setFor (t : PerPlatform NameSet) (platform : String) : Set String :=
  {x | ∃ p : Platform, p.name = platform ∧ x ∈ t.get p}

namespace Model

theorem mem_onPlatform {t : PerPlatform NameSet} {platform x : String} :
    x ∈ onPlatform t platform ↔ x ∈ t.setFor platform := by
  unfold onPlatform PerPlatform.named
  constructor
  · intro hx
    cases hp : Platform.ofName? platform with
    | none =>
      rw [hp] at hx
      exact absurd hx (NameSet.not_mem_empty x)
    | some p =>
      rw [hp] at hx
      exact ⟨p, (Platform.name_of_ofName? hp).symm, hx⟩
  · rintro ⟨p, rfl, hx⟩
    rw [Platform.ofName?_name]
    exact hx

/-! ## What each step makes -/

theorem mem_testedFor {m : Model} {platform y x : String} :
    x ∈ m.testedFor platform y ↔
      y ∉ m.runtimes ∧
        (x = y ∧ (m.checkTargets.get? y).isSome ∨
          x ∈ m.dependents.members y ∧ x ∉ m.excludedDependents.setFor platform) := by
  unfold testedFor
  by_cases hy : y ∈ m.runtimes
  · simp [hy]
  · by_cases ht : (m.checkTargets.get? y).isSome <;> simp [hy, ht, mem_onPlatform]

theorem mem_testedProjects {m : Model} {touched : NameSet} {platform x : String} :
    x ∈ m.testedProjects touched platform ↔
      (∃ y ∈ touched, y ∉ m.runtimes ∧
        (x = y ∧ (m.checkTargets.get? y).isSome ∨
          x ∈ m.dependents.members y ∧ x ∉ m.excludedDependents.setFor platform)) ∧
      x ∉ m.excluded.setFor platform := by
  simp only [testedProjects, NameSet.mem_without, NameSet.mem_gather, mem_testedFor, mem_onPlatform]

theorem mem_runtimesOf {m : Model} {table : NameTable} {touched : NameSet} {platform x : String} :
    x ∈ m.runtimesOf table touched platform ↔
      (∃ y ∈ touched, x ∈ table.members y) ∧ x ∉ m.excluded.setFor platform := by
  simp only [runtimesOf, NameSet.mem_without, NameSet.mem_gather, mem_onPlatform]

theorem mem_buildList {m : Model} {tested runtimesBuilt : NameSet} {x : String} :
    x ∈ m.buildList tested runtimesBuilt ↔
      (∃ p ∈ tested, m.dependencies.Reaches p x) ∨ ∃ r ∈ runtimesBuilt, m.dependencies.Step r x := by
  simp only [buildList, NameSet.mem_union, mem_closure, NameSet.mem_gather, NameTable.Step]

/-- all that is built for the touched names, unlisted names included -/
def buildingFor (m : Model) (touched : NameSet) (platform : String) : NameSet :=
  m.buildList (m.select touched platform).tested (m.select touched platform).runtimesBuilt

theorem mem_built_select {m : Model} {touched : NameSet} {platform x : String} :
    x ∈ (m.select touched platform).built ↔ x ∈ m.buildingFor touched platform ∧ x ∉ m.unlisted :=
  NameSet.mem_without

theorem sentinel_select {m : Model} {touched : NameSet} {platform : String} :
    (m.select touched platform).sentinel = true ↔ ∃ c, m.sentinel = some c ∧ c ∈ m.buildingFor touched platform := by
  have hs : (m.select touched platform).sentinel = m.sentinel.any (· ∈ m.buildingFor touched platform) := rfl
  rw [hs]
  cases m.sentinel with
  | none => simp
  | some c => simp

/-! ## The equations -/

/-- what is built for a selection's tests and runtimes: everything that a tested project reaches, and what a runtime
needs directly -/
def building (m : Model) (s : Selection) : Set String :=
  {x | ∃ p ∈ s.tested, m.dependencies.Reaches p x} ∪ {x | ∃ r ∈ s.runtimesBuilt, m.dependencies.Step r x}

/-- what a table gives to the touched names -/
def givenBy (table : NameTable) (touched : NameSet) : Set String :=
  {x | ∃ y ∈ touched, x ∈ table.members y}

/-- the parts of a selection are what the tables declare for the touched names on a platform -/
structure Declares (m : Model) (touched : NameSet) (platform : String) (s : Selection) : Prop where
  tested : s.tested.toSet =
    ({x | x ∈ touched ∧ x ∉ m.runtimes ∧ ∃ target, m.checkTargets.get? x = some target} ∪
      {x | ∃ y ∈ touched, y ∉ m.runtimes ∧ x ∈ m.dependents.members y ∧ x ∉ m.excludedDependents.setFor platform}) \
    m.excluded.setFor platform
  runtimesTested : s.runtimesTested.toSet = givenBy m.runtimesTested touched \ m.excluded.setFor platform
  runtimesReconfigured : s.runtimesReconfigured.toSet =
    givenBy m.runtimesReconfigured touched \ m.excluded.setFor platform
  runtimesBuilt : s.runtimesBuilt.toSet =
    (s.runtimesTested.toSet ∪ s.runtimesReconfigured.toSet ∪ givenBy m.runtimesBuilt touched) \
    m.excluded.setFor platform
  built : s.built.toSet = m.building s \ m.unlisted.toSet
  /-- the sentinel is looked for among all that is built, unlisted names included -/
  sentinel : s.sentinel = true ↔ ∃ c, m.sentinel = some c ∧ c ∈ m.building s

theorem mem_building_select {m : Model} {touched : NameSet} {platform x : String} :
    x ∈ m.building (m.select touched platform) ↔ x ∈ m.buildingFor touched platform :=
  mem_buildList.symm

theorem declares_select (m : Model) (touched : NameSet) (platform : String) :
    m.Declares touched platform (m.select touched platform) where
  tested := by
    ext x
    simp only [NameSet.mem_toSet, select, mem_testedProjects, Set.mem_sdiff, Set.mem_union, Set.mem_ofPred_eq]
    refine and_congr_left fun _ => ?_
    constructor
    · rintro ⟨y, hy, hr, ⟨rfl, ht⟩ | hd⟩
      · exact Or.inl ⟨hy, hr, Option.isSome_iff_exists.mp ht⟩
      · exact Or.inr ⟨y, hy, hr, hd⟩
    · rintro (⟨hx, hr, ht⟩ | ⟨y, hy, hr, hd⟩)
      · exact ⟨x, hx, hr, Or.inl ⟨rfl, Option.isSome_iff_exists.mpr ht⟩⟩
      · exact ⟨y, hy, hr, Or.inr hd⟩
  runtimesTested := by
    ext x
    simp [select, mem_runtimesOf, givenBy]
  runtimesReconfigured := by
    ext x
    simp [select, mem_runtimesOf, givenBy]
  runtimesBuilt := by
    ext x
    simp only [NameSet.mem_toSet, select, NameSet.mem_union, mem_runtimesOf, Set.mem_sdiff, Set.mem_union, givenBy,
      Set.mem_ofPred_eq]
    -- the exclusions were taken out of the first two already
    simp only [or_and_right, and_assoc, and_self]
  built := by
    ext x
    rw [NameSet.mem_toSet, Set.mem_sdiff, mem_building_select]
    exact mem_built_select
  sentinel := by
    simp only [mem_building_select]
    exact sentinel_select

/-- the equations leave no choice -/
theorem Declares.unique {m : Model} {touched : NameSet} {platform : String} {s s' : Selection}
    (h : m.Declares touched platform s) (h' : m.Declares touched platform s') : s = s' := by
  have htested : s.tested = s'.tested := NameSet.toSet_injective (h.tested.trans h'.tested.symm)
  have hruntimes : s.runtimesTested = s'.runtimesTested :=
    NameSet.toSet_injective (h.runtimesTested.trans h'.runtimesTested.symm)
  have hreconfigured : s.runtimesReconfigured = s'.runtimesReconfigured :=
    NameSet.toSet_injective (h.runtimesReconfigured.trans h'.runtimesReconfigured.symm)
  have hbuilt : s.runtimesBuilt = s'.runtimesBuilt := by
    apply NameSet.toSet_injective
    calc s.runtimesBuilt.toSet
        = (s.runtimesTested.toSet ∪ s.runtimesReconfigured.toSet ∪ givenBy m.runtimesBuilt touched) \
            m.excluded.setFor platform := h.runtimesBuilt
      _ = (s'.runtimesTested.toSet ∪ s'.runtimesReconfigured.toSet ∪ givenBy m.runtimesBuilt touched) \
            m.excluded.setFor platform := by rw [hruntimes, hreconfigured]
      _ = s'.runtimesBuilt.toSet := h'.runtimesBuilt.symm
  have hbuilding : m.building s = m.building s' := by
    unfold building
    rw [htested, hbuilt]
  have hlist : s.built = s'.built := by
    apply NameSet.toSet_injective
    calc s.built.toSet = m.building s \ m.unlisted.toSet := h.built
      _ = m.building s' \ m.unlisted.toSet := by rw [hbuilding]
      _ = s'.built.toSet := h'.built.symm
  have hsentinel : s.sentinel = s'.sentinel := by
    have hiff : s.sentinel = true ↔ ∃ c, m.sentinel = some c ∧ c ∈ m.building s' := by
      rw [← hbuilding]
      exact h.sentinel
    exact Bool.eq_iff_iff.mpr (hiff.trans h'.sentinel.symm)
  cases s
  cases s'
  simp_all

/-- **The selection is the declared one.** For every model, set of touched names and platform, a selection is the one
that is made iff each of its parts is what the tables declare: nothing is missing and nothing more is there. -/
theorem select_eq_iff_declares (m : Model) (touched : NameSet) (platform : String) (s : Selection) :
    m.select touched platform = s ↔ m.Declares touched platform s := by
  constructor
  · rintro rfl
    exact declares_select m touched platform
  · intro h
    exact (declares_select m touched platform).unique h

end Model

end ChangeImpact
