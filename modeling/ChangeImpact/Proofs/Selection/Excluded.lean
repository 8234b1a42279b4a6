/-
What a platform excludes stays out.

The exclusions of a platform are taken out before the build list is made, and the list is then
closed over the dependencies. So it keeps free of excluded names only if no name that is not
excluded depends on one that is (`Model.ExclusionsClosed`): the closure then never steps across.

Results:
- `not_excluded_of_reaches`: steps from a name that is not excluded never lead to one that is.
- `not_excluded_of_mem_part`, `not_excluded_of_mem_built`: the parts of a selection.
- `exclusionsClosed_bundled`: the bundled tables keep the condition on every platform.
- `scope_keeps_out_excluded`: the same for all changes, and what the lists of the bundled tables' environment do not name.
-/
import ChangeImpact.Proofs.Selection.Universe
import ChangeImpact.Proofs.Selection.Union

namespace ChangeImpact

open ChangeImpact.Text

namespace Model

/-! ## Selections -/

/-- no name that is not excluded depends directly on one that is -/
def ExclusionsClosed (m : Model) (platform : String) : Prop :=
  ∀ x y, x ∉ m.excluded.setFor platform → m.dependencies.Step x y → y ∉ m.excluded.setFor platform

theorem not_excluded_of_reaches {m : Model} {platform x y : String} (h : m.ExclusionsClosed platform)
    (hx : x ∉ m.excluded.setFor platform) (hxy : m.dependencies.Reaches x y) : y ∉ m.excluded.setFor platform := by
  -- along the steps: every one of them starts at a name that is not excluded
  induction hxy with
  | refl => exact hx
  | tail _ hstep ih => exact h _ _ ih hstep

theorem not_excluded_of_mem_runtimesBuilt {m : Model} {touched : NameSet} {platform x : String}
    (hx : x ∈ (m.select touched platform).runtimesBuilt) : x ∉ m.excluded.setFor platform := by
  rcases NameSet.mem_union.mp hx with hx | hx
  · rcases NameSet.mem_union.mp hx with hx | hx
    · exact (mem_runtimesOf.mp hx).2
    · exact (mem_runtimesOf.mp hx).2
  · exact (mem_runtimesOf.mp hx).2

/-- every part but the build list is free of excluded names, whatever the tables are -/
theorem not_excluded_of_mem_part {m : Model} {touched : NameSet} {platform x : String} {p : Part} (hp : p ≠ .built)
    (hx : x ∈ (m.select touched platform).part p) : x ∉ m.excluded.setFor platform := by
  cases p with
  | tested => exact (mem_testedProjects.mp hx).2
  | built => exact absurd rfl hp
  | runtimesTested => exact (mem_runtimesOf.mp hx).2
  | runtimesReconfigured => exact (mem_runtimesOf.mp hx).2
  | runtimesBuilt => exact not_excluded_of_mem_runtimesBuilt hx

theorem not_excluded_of_mem_built {m : Model} {touched : NameSet} {platform x : String} (h : m.ExclusionsClosed platform)
    (hx : x ∈ (m.select touched platform).built) : x ∉ m.excluded.setFor platform := by
  rcases mem_buildList.mp (mem_built_select.mp hx).1 with ⟨t, ht, hreach⟩ | ⟨r, hr, hstep⟩
  · have htested : t ∉ m.excluded.setFor platform := (mem_testedProjects.mp ht).2
    exact not_excluded_of_reaches h htested hreach
  · exact h r x (not_excluded_of_mem_runtimesBuilt hr) hstep

/-! ## Lists in an environment -/

theorem mem_splitAt_joined {separator : Char} {texts : List String} (h : ∀ t ∈ texts, separator ∉ t.toList) {t : String}
    (ht : t ∈ splitAt separator (joined separator texts)) : t = "" ∨ t ∈ texts := by
  rw [splitAt_joined h] at ht
  split at ht
  · exact Or.inl (List.mem_singleton.mp ht)
  · exact Or.inr ht

theorem mem_targetsOf {targets : Table String} {s : NameSet} {t : String} :
    t ∈ targetsOf targets s ↔ ∃ x ∈ s, targets.get? x = some t :=
  List.mem_filterMap

theorem mem_splitAt_targets {targets : Table String} (ht : ∀ x t, targets.get? x = some t → ' ' ∉ t.toList)
    {s : NameSet} {t : String} (h : t ∈ Text.splitAt ' ' (joined ' ' (targetsOf targets s))) : t = "" ∨ t ∈ targetsOf targets s := by
  have hspace : ∀ t ∈ targetsOf targets s, ' ' ∉ t.toList := by
    intro t hm
    obtain ⟨x, -, hx⟩ := mem_targetsOf.mp hm
    exact ht x t hx
  exact mem_splitAt_joined hspace h

/-! ## The bundled tables -/

theorem mem_setFor_name {t : PerPlatform NameSet} {p : Platform} {x : String} : x ∈ t.setFor p.name ↔ x ∈ t.get p := by
  rw [← mem_onPlatform, onPlatform, PerPlatform.named, Platform.ofName?_name]
  rfl

theorem mem_excluded_bundled {p : Platform} {x : String} :
    x ∈ Bundled.model.excluded.get p ↔ x ∈ Bundled.excluded.get p := by
  rw [Bundled.model, ofTables, PerPlatform.get_map, NameSet.mem_ofList]
  rfl

theorem exclusionsClosed_bundled (p : Platform) : Bundled.model.ExclusionsClosed p.name := by
  have hlists : ∀ p : Platform, ∀ e ∈ Bundled.dependencies, e.1 ∉ Bundled.excluded.get p →
      ∀ y ∈ e.2, y ∉ Bundled.excluded.get p := by
    intro p
    cases p <;> decide
  intro x y hx hstep hy
  rw [mem_setFor_name, mem_excluded_bundled] at hx hy
  have hlisted : y ∈ Bundled.dependencies.toTable.members x := hstep
  obtain ⟨names, hm, hyn⟩ := NameLists.mem_of_mem_members_toTable hlisted
  exact hlists p _ hm hx y hyn hy

theorem no_semicolon_of_known {x : String} (hx : Bundled.model.Known x) : ';' ∉ x.toList := by
  have hnames : ∀ x ∈ Bundled.projects ++ Bundled.runtimes, ';' ∉ x.toList := by decide
  exact hnames x (List.mem_append.mpr (known_ofTables.mp hx))

theorem mem_checkTargets_bundled {x t : String} (h : Bundled.model.checkTargets.get? x = some t) :
    (x, t) ∈ Bundled.checkTargets :=
  Table.mem_of_get?_ofEntries h

theorem no_space_of_target {x t : String} (h : Bundled.model.checkTargets.get? x = some t) : ' ' ∉ t.toList := by
  have htargets : ∀ e ∈ Bundled.checkTargets, ' ' ∉ e.2.toList := by decide
  exact htargets _ (mem_checkTargets_bundled h)

/-- no two names have the same check target -/
theorem target_injective {x y t : String} (hx : Bundled.model.checkTargets.get? x = some t)
    (hy : Bundled.model.checkTargets.get? y = some t) : x = y := by
  have htargets : ∀ e ∈ Bundled.checkTargets, ∀ f ∈ Bundled.checkTargets, e.2 = f.2 → e.1 = f.1 := by decide +kernel
  exact htargets _ (mem_checkTargets_bundled hx) _ (mem_checkTargets_bundled hy) rfl

theorem not_listed_of_excluded {p : Platform} {x : String} {s : NameSet} (hx : x ∈ Bundled.model.excluded.get p)
    (hknown : ∀ y ∈ s, Bundled.model.Known y) (hs : ∀ y ∈ s, y ∉ Bundled.model.excluded.setFor p.name) :
    x ∉ Text.splitAt ';' (listed s) := by
  intro hl
  rcases mem_splitAt_joined (fun y hy => no_semicolon_of_known (hknown y hy)) hl with rfl | hm
  · have hblank : ∀ p : Platform, "" ∉ Bundled.excluded.get p := by
      intro p
      cases p <;> decide
    exact hblank p (mem_excluded_bundled.mp hx)
  · exact hs x hm (mem_setFor_name.mpr hx)

theorem no_target_of_excluded {p : Platform} {x t : String} {s : NameSet} (hx : x ∈ Bundled.model.excluded.get p)
    (ht : Bundled.model.checkTargets.get? x = some t) (hs : ∀ y ∈ s, y ∉ Bundled.model.excluded.setFor p.name) :
    t ∉ Text.splitAt ' ' (joined ' ' (targetsOf Bundled.model.checkTargets s)) := by
  intro hl
  rcases mem_splitAt_targets (fun _ _ => no_space_of_target) hl with rfl | hm
  · have hblank : ∀ e ∈ Bundled.checkTargets, e.2 ≠ "" := by decide
    exact hblank _ (mem_checkTargets_bundled ht) rfl
  · obtain ⟨y, hy, hyt⟩ := mem_targetsOf.mp hm
    obtain rfl : x = y := target_injective ht hyt
    exact hs x hy (mem_setFor_name.mpr hx)

/-! ## Changes -/

/-- **What a platform excludes stays out.** For every model, platform and change, no excluded name is tested, and no
excluded runtime is tested, reconfigured or built; and none is built at all when no name that is not excluded depends on one
that is. The bundled tables are so on every platform, so their environment never lists an excluded name for building, nor
the check target of one. -/
theorem scope_keeps_out_excluded :
    (∀ (m : Model) (platform : String) (files : List String),
      let s := (m.scope files platform).selection
      (∀ x ∈ m.excluded.setFor platform,
        x ∉ s.tested ∧ x ∉ s.runtimesTested ∧ x ∉ s.runtimesReconfigured ∧ x ∉ s.runtimesBuilt) ∧
      (m.ExclusionsClosed platform → ∀ x ∈ m.excluded.setFor platform, x ∉ s.built)) ∧
    (∀ p : Platform, Bundled.model.ExclusionsClosed p.name) ∧
    (∀ (p : Platform) (files : List String),
      let e := (Bundled.model.scope files p.name).environment
      ∀ x ∈ Bundled.model.excluded.get p,
        (x ∉ Text.splitAt ';' e.built ∧ x ∉ Text.splitAt ';' e.runtimesBuilt) ∧
        ∀ target, Bundled.model.checkTargets.get? x = some target →
          target ∉ Text.splitAt ' ' e.checkTargets ∧ target ∉ Text.splitAt ' ' e.runtimeTargets ∧
            target ∉ Text.splitAt ' ' e.reconfiguredTargets) := by
  refine ⟨fun m platform files => ?_, exclusionsClosed_bundled, fun p files => ?_⟩
  · intro s
    refine ⟨fun x hx => ?_, fun h x hx hb => not_excluded_of_mem_built h hb hx⟩
    have hpart : ∀ p : Part, p ≠ .built → x ∉ s.part p := fun p hp hm => not_excluded_of_mem_part hp hm hx
    exact ⟨hpart .tested nofun, hpart .runtimesTested nofun, hpart .runtimesReconfigured nofun,
      hpart .runtimesBuilt nofun⟩
  · intro e x hx
    let s := Bundled.model.select (Bundled.model.touched (cleanAll files).names) p.name
    have h : Bundled.model.Consistent := consistent_of_ofValue ofValue_bundled
    have hpart : ∀ q : Part, q ≠ .built → ∀ y ∈ s.part q, y ∉ Bundled.model.excluded.setFor p.name :=
      fun q hq y hy => not_excluded_of_mem_part hq hy
    have hbuilt : ∀ y ∈ s.built, y ∉ Bundled.model.excluded.setFor p.name :=
      fun y hy => not_excluded_of_mem_built (exclusionsClosed_bundled p) hy
    refine ⟨⟨not_listed_of_excluded hx (fun y hy => known_of_mem_built h hy) hbuilt, ?_⟩, fun t ht => ⟨?_, ?_, ?_⟩⟩
    · exact not_listed_of_excluded hx (fun y hy => Or.inr (runtimesBuilt_subset h _ _ y hy)) (hpart .runtimesBuilt nofun)
    · exact no_target_of_excluded hx ht (hpart .tested nofun)
    · exact no_target_of_excluded hx ht (hpart .runtimesTested nofun)
    · exact no_target_of_excluded hx ht (hpart .runtimesReconfigured nofun)

/-- a change of the bundled tables' continuous integration on the platform that excludes most: a runtime that depends on an
excluded project is excluded itself -/
theorem bundled_scope_keeps_out_excluded :
    Bundled.model.ExclusionsClosed Platform.darwin.name ∧
    ("flang" ∉ (Bundled.model.scope [".github/workflows/premerge.yaml"] Platform.darwin.name).selection.built) ∧
    "check-flang" ∉
      Text.splitAt ' ' (Bundled.model.scope [".github/workflows/premerge.yaml"] Platform.darwin.name).environment.checkTargets := by
  obtain ⟨hall, hclosed, hbundled⟩ := scope_keeps_out_excluded
  have hflang : "flang" ∈ Bundled.model.excluded.get .darwin := mem_excluded_bundled.mpr (by decide)
  have htarget : Bundled.model.checkTargets.get? "flang" = some "check-flang" :=
    (Table.get?_ofEntries _ _).trans (by decide)
  refine ⟨hclosed .darwin, ?_, ?_⟩
  · exact (hall _ _ _).2 (hclosed .darwin) _ (mem_setFor_name.mpr hflang)
  · exact ((hbundled .darwin _ _ hflang).2 _ htarget).1

end Model

end ChangeImpact
