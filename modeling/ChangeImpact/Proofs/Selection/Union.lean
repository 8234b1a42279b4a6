/-
A change needs what its files need one by one.

`Additive` says of a function on sets of names that its value on a set is the union of its values on
the members. Gathering, taking out, closing over dependencies and their compositions are additive, so
every part of a selection is, and the way from files to touched names passes this on to changes.

Results:
- `Additive.comp`, `Additive.union`, `additive_closure`: what additive functions are put together from.
- `additive_part`, `additive_buildingFor`: each part of a selection, and what the sentinel is looked for in.
- `scope_of_union`: the selection of two changes together is the union of their selections, and every selected name
  comes from one file alone.
-/
import ChangeImpact.Proofs.Selection.Declared
import ChangeImpact.Selection.Scope

namespace ChangeImpact

/-! ## Additive functions -/

/-- the value on a set is made of the values on its members -/
def Additive (f : NameSet → NameSet) : Prop :=
  ∀ s x, x ∈ f s ↔ ∃ y ∈ s, x ∈ f (.ofList [y])

theorem additive_gather (h : String → NameSet) : Additive fun s => s.gather h := by
  intro s x
  simp

theorem additive_without (removed : NameSet) : Additive fun s => s.without removed := by
  intro s x
  simp only [NameSet.mem_without, NameSet.mem_ofList, List.mem_singleton]
  constructor
  · rintro ⟨hx, hr⟩
    exact ⟨x, hx, rfl, hr⟩
  · rintro ⟨_, hx, rfl, hr⟩
    exact ⟨hx, hr⟩

theorem additive_closure (t : NameTable) : Additive (closure t) := by
  intro s x
  simp [mem_closure]

theorem Additive.comp {f g : NameSet → NameSet} (hg : Additive g) (hf : Additive f) : Additive fun s => g (f s) := by
  intro s x
  constructor
  · intro hx
    obtain ⟨z, hz, hx⟩ := (hg (f s) x).mp hx
    obtain ⟨y, hy, hz⟩ := (hf s z).mp hz
    exact ⟨y, hy, (hg _ x).mpr ⟨z, hz, hx⟩⟩
  · rintro ⟨y, hy, hx⟩
    obtain ⟨z, hz, hx⟩ := (hg _ x).mp hx
    exact (hg (f s) x).mpr ⟨z, (hf s z).mpr ⟨y, hy, hz⟩, hx⟩

theorem Additive.union {f g : NameSet → NameSet} (hf : Additive f) (hg : Additive g) : Additive fun s => f s ∪ g s := by
  intro s x
  simp only [NameSet.mem_union]
  rw [hf s x, hg s x]
  constructor
  · rintro (⟨y, hy, hx⟩ | ⟨y, hy, hx⟩)
    · exact ⟨y, hy, Or.inl hx⟩
    · exact ⟨y, hy, Or.inr hx⟩
  · rintro ⟨y, hy, hx | hx⟩
    · exact Or.inl ⟨y, hy, hx⟩
    · exact Or.inr ⟨y, hy, hx⟩

theorem Additive.map_union {f : NameSet → NameSet} (h : Additive f) (a b : NameSet) : f (a ∪ b) = f a ∪ f b := by
  ext x
  rw [NameSet.mem_union, h, h a, h b]
  simp only [NameSet.mem_union, or_and_right, exists_or]

theorem Additive.map_empty {f : NameSet → NameSet} (h : Additive f) : f ∅ = ∅ := by
  ext x
  rw [h]
  simp

theorem Additive.subset {f : NameSet → NameSet} (h : Additive f) {a b : NameSet} (hab : a ⊆ b) : f a ⊆ f b := by
  intro x hx
  obtain ⟨y, hy, hx⟩ := (h a x).mp hx
  exact (h b x).mpr ⟨y, hab y hy, hx⟩

/-! ## The parts of a selection -/

/-- the parts of a selection that are sets of names -/
inductive Part where
  | tested
  | built
  | runtimesTested
  | runtimesReconfigured
  | runtimesBuilt

namespace Selection

def part (s : Selection) : Part → NameSet
  | .tested => s.tested
  | .built => s.built
  | .runtimesTested => s.runtimesTested
  | .runtimesReconfigured => s.runtimesReconfigured
  | .runtimesBuilt => s.runtimesBuilt

/-- part by part, with the sentinel when either has it -/
instance : Union Selection where
  union a b :=
    { tested := a.tested ∪ b.tested
      built := a.built ∪ b.built
      runtimesTested := a.runtimesTested ∪ b.runtimesTested
      runtimesReconfigured := a.runtimesReconfigured ∪ b.runtimesReconfigured
      runtimesBuilt := a.runtimesBuilt ∪ b.runtimesBuilt
      sentinel := a.sentinel || b.sentinel }

instance : EmptyCollection Selection where
  emptyCollection :=
    { tested := ∅, built := ∅, runtimesTested := ∅, runtimesReconfigured := ∅, runtimesBuilt := ∅, sentinel := false }

theorem part_union (a b : Selection) (p : Part) : (a ∪ b).part p = a.part p ∪ b.part p := by
  cases p <;> rfl

theorem part_empty (p : Part) : (∅ : Selection).part p = ∅ := by
  cases p <;> rfl

theorem ext_parts {a b : Selection} (hp : ∀ p, a.part p = b.part p) (hs : a.sentinel = b.sentinel) : a = b := by
  have h1 := hp .tested
  have h2 := hp .built
  have h3 := hp .runtimesTested
  have h4 := hp .runtimesReconfigured
  have h5 := hp .runtimesBuilt
  cases a
  cases b
  simp only [part] at h1 h2 h3 h4 h5
  subst h1 h2 h3 h4 h5 hs
  rfl

end Selection

namespace Model

variable (m : Model) (platform : String)

theorem additive_testedProjects : Additive fun touched => m.testedProjects touched platform :=
  (additive_without _).comp (additive_gather _)

theorem additive_runtimesOf (table : NameTable) : Additive fun touched => m.runtimesOf table touched platform :=
  (additive_without _).comp (additive_gather _)

theorem additive_runtimesBuilt : Additive fun touched => (m.select touched platform).runtimesBuilt :=
  ((m.additive_runtimesOf platform _).union (m.additive_runtimesOf platform _)).union (m.additive_runtimesOf platform _)

theorem additive_buildingFor : Additive fun touched => m.buildingFor touched platform :=
  ((additive_closure _).comp (m.additive_testedProjects platform)).union
    ((additive_gather _).comp (m.additive_runtimesBuilt platform))

theorem additive_part (p : Part) : Additive fun touched => (m.select touched platform).part p := by
  cases p with
  | tested => exact m.additive_testedProjects platform
  | built => exact (additive_without _).comp (m.additive_buildingFor platform)
  | runtimesTested => exact m.additive_runtimesOf platform _
  | runtimesReconfigured => exact m.additive_runtimesOf platform _
  | runtimesBuilt => exact m.additive_runtimesBuilt platform

theorem sentinel_select_iff_exists (touched : NameSet) :
    (m.select touched platform).sentinel = true ↔ ∃ y ∈ touched, (m.select (.ofList [y]) platform).sentinel = true := by
  simp only [sentinel_select]
  constructor
  · rintro ⟨c, hc, hb⟩
    obtain ⟨y, hy, hb⟩ := (m.additive_buildingFor platform touched c).mp hb
    exact ⟨y, hy, c, hc, hb⟩
  · rintro ⟨y, hy, c, hc, hb⟩
    exact ⟨c, hc, (m.additive_buildingFor platform touched c).mpr ⟨y, hy, hb⟩⟩

/-! ## From files to touched names -/

theorem owners_clean_eq_empty {path : String} (h : clean path = "") : m.owners (clean path) = ∅ := by
  rw [h]
  rfl

theorem mem_touched_cleanAll {m : Model} {files : List String} {x : String} :
    x ∈ m.touched (cleanAll files).names ↔ ∃ f ∈ files, x ∈ m.owners (clean f) := by
  simp only [mem_touched, cleanAll, NameSet.mem_names, NameSet.mem_ofList, List.mem_filter, List.mem_map]
  constructor
  · rintro ⟨_, ⟨⟨f, hf, rfl⟩, -⟩, hx⟩
    exact ⟨f, hf, hx⟩
  · rintro ⟨f, hf, hx⟩
    -- a file without segments has no owners, so the filter lost nothing
    have hne : clean f ≠ "" := by
      intro he
      rw [m.owners_clean_eq_empty he] at hx
      exact NameSet.not_mem_empty x hx
    exact ⟨clean f, ⟨⟨f, hf, rfl⟩, by simpa using hne⟩, hx⟩

theorem touched_append (files others : List String) :
    m.touched (cleanAll (files ++ others)).names =
      m.touched (cleanAll files).names ∪ m.touched (cleanAll others).names := by
  ext x
  simp only [NameSet.mem_union, mem_touched_cleanAll, List.mem_append, or_and_right, exists_or]

theorem touched_nil : m.touched (cleanAll []).names = ∅ := by
  ext x
  rw [mem_touched_cleanAll]
  simp

theorem touched_of_mem {files : List String} {y : String} (hy : y ∈ m.touched (cleanAll files).names) :
    ∃ f ∈ files, y ∈ m.touched (cleanAll [f]).names := by
  obtain ⟨f, hf, hy⟩ := mem_touched_cleanAll.mp hy
  exact ⟨f, hf, mem_touched_cleanAll.mpr ⟨f, List.mem_singleton.mpr rfl, hy⟩⟩

theorem touched_subset {files more : List String} (h : ∀ f ∈ files, f ∈ more) :
    m.touched (cleanAll files).names ⊆ m.touched (cleanAll more).names := by
  intro x hx
  obtain ⟨f, hf, hx⟩ := mem_touched_cleanAll.mp hx
  exact mem_touched_cleanAll.mpr ⟨f, h f hf, hx⟩

/-! ## The selection of a union -/

theorem sentinel_select_mono {a b : NameSet} (hab : a ⊆ b) (h : (m.select a platform).sentinel = true) :
    (m.select b platform).sentinel = true := by
  obtain ⟨y, hy, hs⟩ := (m.sentinel_select_iff_exists platform _).mp h
  exact (m.sentinel_select_iff_exists platform _).mpr ⟨y, hab y hy, hs⟩

theorem select_union (a b : NameSet) : m.select (a ∪ b) platform = m.select a platform ∪ m.select b platform := by
  refine Selection.ext_parts (fun p => ?_) ?_
  · rw [Selection.part_union]
    exact (m.additive_part platform p).map_union a b
  · change _ = ((m.select a platform).sentinel || (m.select b platform).sentinel)
    rw [Bool.eq_iff_iff, Bool.or_eq_true]
    rw [m.sentinel_select_iff_exists platform (a ∪ b), m.sentinel_select_iff_exists platform a,
      m.sentinel_select_iff_exists platform b]
    simp only [NameSet.mem_union, or_and_right, exists_or]

theorem select_empty : m.select ∅ platform = ∅ := by
  refine Selection.ext_parts (fun p => ?_) ?_
  · rw [Selection.part_empty]
    exact (m.additive_part platform p).map_empty
  · rw [Bool.eq_iff_iff, sentinel_select_iff_exists]
    constructor
    · rintro ⟨y, hy, -⟩
      exact absurd hy (NameSet.not_mem_empty y)
    · intro h
      exact absurd h Bool.false_ne_true

/-- **The selection of a union is the union of the selections**, for changes as for sets of touched names. A change
without files selects nothing, more files never take anything away, and all that is selected, the sentinel too, is
selected for some one of the files alone. -/
theorem scope_of_union :
    (∀ files others : List String, (m.scope (files ++ others) platform).selection =
      (m.scope files platform).selection ∪ (m.scope others platform).selection) ∧
    (m.scope [] platform).selection = ∅ ∧
    (∀ a b : NameSet, m.select (a ∪ b) platform = m.select a platform ∪ m.select b platform) ∧
    (∀ files more : List String, (∀ f ∈ files, f ∈ more) →
      (∀ p, (m.scope files platform).selection.part p ⊆ (m.scope more platform).selection.part p) ∧
      ((m.scope files platform).selection.sentinel = true → (m.scope more platform).selection.sentinel = true)) ∧
    (∀ files : List String,
      (∀ p, ∀ x ∈ (m.scope files platform).selection.part p,
        ∃ f ∈ files, x ∈ (m.scope [f] platform).selection.part p) ∧
      ((m.scope files platform).selection.sentinel = true →
        ∃ f ∈ files, (m.scope [f] platform).selection.sentinel = true)) := by
  have hscope : ∀ files, (m.scope files platform).selection = m.select (m.touched (cleanAll files).names) platform :=
    fun _ => rfl
  simp only [hscope]
  refine ⟨fun files others => ?_, ?_, m.select_union platform, fun files more h => ⟨fun p => ?_, ?_⟩,
    fun files => ⟨fun p x hx => ?_, fun hs => ?_⟩⟩
  · calc m.select (m.touched (cleanAll (files ++ others)).names) platform
        = m.select (m.touched (cleanAll files).names ∪ m.touched (cleanAll others).names) platform := by
          rw [touched_append]
      _ = m.select (m.touched (cleanAll files).names) platform ∪
            m.select (m.touched (cleanAll others).names) platform := m.select_union platform _ _
  · rw [touched_nil, select_empty]
  · exact (m.additive_part platform p).subset (m.touched_subset h)
  · exact m.sentinel_select_mono platform (m.touched_subset h)
  · obtain ⟨y, hy, hx⟩ := (m.additive_part platform p _ x).mp hx
    obtain ⟨f, hf, hy⟩ := m.touched_of_mem hy
    exact ⟨f, hf, (m.additive_part platform p _ x).mpr ⟨y, hy, hx⟩⟩
  · obtain ⟨y, hy, hs⟩ := (m.sentinel_select_iff_exists platform _).mp hs
    obtain ⟨f, hf, hy⟩ := m.touched_of_mem hy
    exact ⟨f, hf, (m.sentinel_select_iff_exists platform _).mpr ⟨y, hy, hs⟩⟩

end Model

end ChangeImpact
