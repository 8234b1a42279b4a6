/-
More in the tables, more in the selection.

The tables act on a selection with different signs. The five tables of name lists, the check targets
and the touched names add to it; the runtimes' own names, what a platform excludes and the names that
are not listed take away from it. `Model.Within` compares two models, each on a platform of its own, in
that sense: the second has everything that adds and nothing more that takes away. Every step of a
selection keeps that order, the closure too, although the graph it follows grows with the tables.

Results:
- `Reaches.of_within`, `closure_within`: what is reached along a table is reached along a larger one.
- `testedProjects_within`, `runtimesOf_within`, `buildingFor_within`: the steps of a selection.
- `within_of_unknown`, `within_unrestricted`: an unknown platform, and a model that takes nothing away.
- `select_within`: the selections of two models, and of one model on a known and on an unknown platform.
-/
import ChangeImpact.Proofs.Selection.Union
import ChangeImpact.Proofs.Tables.Consistent

namespace ChangeImpact

/-! ## Tables -/

namespace NameTable

/-- what the table lists under a name the other one lists too; a name that a table does not have has nothing listed -/
def Within (t more : NameTable) : Prop :=
  ∀ key, t.members key ⊆ more.members key

theorem Within.refl (t : NameTable) : t.Within t :=
  fun _ _ hx => hx

theorem Reaches.of_within {t more : NameTable} (h : t.Within more) {x y : String} (hxy : t.Reaches x y) :
    more.Reaches x y :=
  Relation.ReflTransGen.mono (fun a b hab => h a b hab) x y hxy

end NameTable

/-- the closure grows with the table and with the roots -/
theorem closure_within {t more : NameTable} (h : t.Within more) {roots others : NameSet} (hroots : roots ⊆ others) :
    closure t roots ⊆ closure more others := by
  intro x hx
  obtain ⟨r, hr, hrx⟩ := mem_closure.mp hx
  exact mem_closure.mpr ⟨r, hroots r hr, hrx.of_within h⟩

theorem NameSet.gather_within {a b : NameSet} (hab : a ⊆ b) {f g : String → NameSet} (hfg : ∀ y, f y ⊆ g y) :
    a.gather f ⊆ b.gather g := by
  intro x hx
  obtain ⟨y, hy, hx⟩ := NameSet.mem_gather.mp hx
  exact NameSet.mem_gather.mpr ⟨y, hab y hy, hfg y x hx⟩

namespace Model

/-! ## Two models -/

/-- the second model has on its platform everything that adds to a selection of the first on its own, and nothing
more that takes away from one; both look for the same sentinel -/
structure Within (m : Model) (platform : String) (more : Model) (other : String) : Prop where
  tables : ∀ n, (m.table n).Within (more.table n)
  targets : ∀ x target, m.checkTargets.get? x = some target → ∃ target', more.checkTargets.get? x = some target'
  runtimes : more.runtimes ⊆ m.runtimes
  unlisted : more.unlisted ⊆ m.unlisted
  excluded : more.excluded.setFor other ⊆ m.excluded.setFor platform
  excludedDependents : more.excludedDependents.setFor other ⊆ m.excludedDependents.setFor platform
  sentinel : m.sentinel = more.sentinel

section Steps

variable {m more : Model} {platform other : String} {a b : NameSet}

theorem testedProjects_within (h : m.Within platform more other) (hab : a ⊆ b) :
    m.testedProjects a platform ⊆ more.testedProjects b other := by
  intro x hx
  obtain ⟨⟨y, hy, hproject, hasked⟩, hkept⟩ := mem_testedProjects.mp hx
  refine mem_testedProjects.mpr ⟨⟨y, hab y hy, fun hr => hproject (h.runtimes y hr), ?_⟩, fun he => hkept (h.excluded he)⟩
  rcases hasked with ⟨rfl, ht⟩ | ⟨hd, hfree⟩
  · obtain ⟨target, ht⟩ := Option.isSome_iff_exists.mp ht
    obtain ⟨target', ht'⟩ := h.targets x target ht
    exact Or.inl ⟨rfl, Option.isSome_iff_exists.mpr ⟨target', ht'⟩⟩
  · exact Or.inr ⟨h.tables .dependents y x hd, fun he => hfree (h.excludedDependents he)⟩

theorem runtimesOf_within (h : m.Within platform more other) (hab : a ⊆ b) (n : TableName) :
    m.runtimesOf (m.table n) a platform ⊆ more.runtimesOf (more.table n) b other := by
  intro x hx
  obtain ⟨⟨y, hy, hgiven⟩, hkept⟩ := mem_runtimesOf.mp hx
  exact mem_runtimesOf.mpr ⟨⟨y, hab y hy, h.tables n y x hgiven⟩, fun he => hkept (h.excluded he)⟩

theorem runtimesBuilt_within (h : m.Within platform more other) (hab : a ⊆ b) :
    (m.select a platform).runtimesBuilt ⊆ (more.select b other).runtimesBuilt := by
  intro x hx
  rcases NameSet.mem_union.mp hx with hx | hx
  · rcases NameSet.mem_union.mp hx with hx | hx
    · exact NameSet.mem_union.mpr (Or.inl (NameSet.mem_union.mpr (Or.inl (runtimesOf_within h hab .runtimesTested x hx))))
    · exact NameSet.mem_union.mpr
        (Or.inl (NameSet.mem_union.mpr (Or.inr (runtimesOf_within h hab .runtimesReconfigured x hx))))
  · exact NameSet.mem_union.mpr (Or.inr (runtimesOf_within h hab .runtimesBuilt x hx))

theorem buildingFor_within (h : m.Within platform more other) (hab : a ⊆ b) :
    m.buildingFor a platform ⊆ more.buildingFor b other := by
  have hdependencies : m.dependencies.Within more.dependencies := h.tables .dependencies
  have hclosure := closure_within hdependencies (testedProjects_within h hab)
  have hdirect := NameSet.gather_within (runtimesBuilt_within h hab) hdependencies
  intro x hx
  rcases NameSet.mem_union.mp hx with hx | hx
  · exact NameSet.mem_union.mpr (Or.inl (hclosure x hx))
  · exact NameSet.mem_union.mpr (Or.inr (hdirect x hx))

theorem part_within (h : m.Within platform more other) (hab : a ⊆ b) (p : Part) :
    (m.select a platform).part p ⊆ (more.select b other).part p := by
  cases p with
  | tested => exact testedProjects_within h hab
  | built =>
    intro x hx
    obtain ⟨hx, hlisted⟩ := mem_built_select.mp hx
    exact mem_built_select.mpr ⟨buildingFor_within h hab x hx, fun hu => hlisted (h.unlisted x hu)⟩
  | runtimesTested => exact runtimesOf_within h hab .runtimesTested
  | runtimesReconfigured => exact runtimesOf_within h hab .runtimesReconfigured
  | runtimesBuilt => exact runtimesBuilt_within h hab

/-- the sentinel is looked for before the names that are not listed are dropped, so they have no part in this -/
theorem sentinel_within (h : m.Within platform more other) (hab : a ⊆ b) (hs : (m.select a platform).sentinel = true) :
    (more.select b other).sentinel = true := by
  obtain ⟨c, hc, hb⟩ := sentinel_select.mp hs
  exact sentinel_select.mpr ⟨c, h.sentinel ▸ hc, buildingFor_within h hab c hb⟩

end Steps

/-! ## Platforms -/

theorem setFor_of_unknown {t : PerPlatform NameSet} {unknown : String} (h : ∀ p : Platform, p.name ≠ unknown) :
    t.setFor unknown = ∅ := by
  ext x
  constructor
  · rintro ⟨p, hp, -⟩
    exact absurd hp (h p)
  · intro hx
    exact absurd hx (Set.notMem_empty x)

theorem within_of_unknown (m : Model) (platform : String) {unknown : String} (h : ∀ p : Platform, p.name ≠ unknown) :
    m.Within platform m unknown where
  tables n := NameTable.Within.refl _
  targets x target ht := ⟨target, ht⟩
  runtimes _ hx := hx
  unlisted _ hx := hx
  excluded := by
    rw [setFor_of_unknown h]
    exact Set.empty_subset _
  excludedDependents := by
    rw [setFor_of_unknown h]
    exact Set.empty_subset _
  sentinel := rfl

/-! ## Nothing that takes away -/

/-- the model with nothing left that takes away from a selection -/
def unrestricted (m : Model) : Model :=
  { m with runtimes := ∅, unlisted := ∅, excluded := ⟨∅, ∅, ∅⟩, excludedDependents := ⟨∅, ∅, ∅⟩ }

theorem setFor_nothing (platform : String) : (⟨∅, ∅, ∅⟩ : PerPlatform NameSet).setFor platform = ∅ := by
  ext x
  constructor
  · rintro ⟨p, -, hx⟩
    cases p <;> exact absurd hx (NameSet.not_mem_empty x)
  · intro hx
    exact absurd hx (Set.notMem_empty x)

theorem within_unrestricted (m : Model) (platform other : String) : m.Within platform m.unrestricted other where
  tables n := by cases n <;> exact NameTable.Within.refl _
  targets _ target ht := ⟨target, ht⟩
  runtimes x hx := absurd hx (NameSet.not_mem_empty x)
  unlisted x hx := absurd hx (NameSet.not_mem_empty x)
  excluded := by
    rw [unrestricted, setFor_nothing]
    exact Set.empty_subset _
  excludedDependents := by
    rw [unrestricted, setFor_nothing]
    exact Set.empty_subset _
  sentinel := rfl

/-! ## Selections -/

/-- **Tables that add more and take away less select more.** For two models of which the second has everything that adds to
a selection and nothing more that takes away, and for touched names of which the second model is given all, every part of
the first selection is contained in that part of the second, and the second has the sentinel if the first has it. So on a
platform that is unknown a model selects everything that it selects on a known one. -/
theorem select_within :
    (∀ (m more : Model) (platform other : String) (touched touched' : NameSet),
      m.Within platform more other → touched ⊆ touched' →
      (∀ p, (m.select touched platform).part p ⊆ (more.select touched' other).part p) ∧
      ((m.select touched platform).sentinel = true → (more.select touched' other).sentinel = true)) ∧
    (∀ (m : Model) (touched : NameSet) (known : Platform) (unknown : String), Platform.ofName? unknown = none →
      (∀ p, (m.select touched known.name).part p ⊆ (m.select touched unknown).part p) ∧
      ((m.select touched known.name).sentinel = true → (m.select touched unknown).sentinel = true)) := by
  refine ⟨fun m more platform other touched touched' h hab => ?_, fun m touched known unknown hunknown => ?_⟩
  · exact ⟨part_within h hab, sentinel_within h hab⟩
  · have hname : ∀ p : Platform, p.name ≠ unknown := by
      rintro p rfl
      rw [Platform.ofName?_name] at hunknown
      contradiction
    have h := m.within_of_unknown known.name hname
    exact ⟨part_within h fun _ hx => hx, sentinel_within h fun _ hx => hx⟩

/-- the bundled tables on the platform that excludes most, and without anything that takes away -/
theorem select_within_bundled :
    let touched : NameSet := .ofList ["clang"]
    let touched' : NameSet := .ofList ["clang", "flang"]
    Bundled.model.Within "Darwin" Bundled.model.unrestricted "Darwin" ∧ touched ⊆ touched' ∧
    (Bundled.model.select touched "Darwin").tested ⊆ (Bundled.model.unrestricted.select touched' "Darwin").tested ∧
    "flang" ∉ (Bundled.model.select touched' "Darwin").tested ∧
    "flang" ∈ (Bundled.model.unrestricted.select touched' "Darwin").tested ∧
    Platform.ofName? "Plan9" = none ∧
    (Bundled.model.select touched' "Darwin").built ⊆ (Bundled.model.select touched' "Plan9").built := by
  intro touched touched'
  have hwithin := Bundled.model.within_unrestricted "Darwin" "Darwin"
  have htouched : touched ⊆ touched' := by
    intro x hx
    rw [NameSet.mem_ofList] at hx ⊢
    exact List.mem_cons.mpr (Or.inl (List.mem_singleton.mp hx))
  obtain ⟨hmodels, hplatforms⟩ := select_within
  refine ⟨hwithin, htouched, (hmodels _ _ _ _ _ _ hwithin htouched).1 .tested, ?_, ?_, by decide,
    (hplatforms _ touched' .darwin "Plan9" (by decide)).1 .built⟩
  · intro hx
    have hexcluded : "flang" ∈ Bundled.model.excluded.setFor "Darwin" :=
      ⟨.darwin, rfl, NameSet.mem_ofList.mpr (by decide)⟩
    exact (mem_testedProjects.mp hx).2 hexcluded
  · have htarget : Bundled.model.checkTargets.get? "flang" = some "check-flang" :=
      (Table.get?_ofEntries _ _).trans (by decide)
    refine mem_testedProjects.mpr ⟨⟨"flang", NameSet.mem_ofList.mpr (by decide), NameSet.not_mem_empty _,
      Or.inl ⟨rfl, Option.isSome_iff_exists.mpr ⟨_, htarget⟩⟩⟩, ?_⟩
    rw [unrestricted, setFor_nothing]
    exact Set.notMem_empty _

end Model

end ChangeImpact
