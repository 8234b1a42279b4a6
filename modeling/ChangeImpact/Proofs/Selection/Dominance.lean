/-
A change of the continuous integration calls for everything.

When the continuous integration itself changes, every project is to be tested, and the bundled tables say so
in rows that are kept by hand: no rule follows from the others which names belong there. What keeps the rows
complete is that no name can ask for more than they do. A selection is put together from what the touched
names ask for one by one, so it is enough to look at the rows: each name that is tested or built for another
name has to be in them, or is one of the few that are spared. The build list follows by the closure, when
whatever a spared name depends on is tested anyway.

Results:
- `itemsIn_joined`: the entries of a printed list.
- `buildingFor_dominated`: a build list is bounded by another one when its tests and its runtimes are.
- `owners_of_integration`: a file of the continuous integration belongs to it alone.
- `tested_dominated`, `runtimesBuilt_dominated`: the bundled rows are complete.
- `scope_dominated_bundled`: the printed lists of all changes on all platforms.
-/
import ChangeImpact.Proofs.Selection.Sentinel

namespace ChangeImpact

open ChangeImpact.Text

/-! ## Printed lists -/

/-- the entries of a printed list, of which the empty text has none -/
def itemsIn (separator : Char) (text : String) : List String :=
  (splitAt separator text).filter (· ≠ "")

theorem itemsIn_joined {separator : Char} {texts : List String} (h : ∀ t ∈ texts, separator ∉ t.toList)
    (hne : ∀ t ∈ texts, t ≠ "") : itemsIn separator (joined separator texts) = texts := by
  rw [itemsIn, splitAt_joined h]
  split
  · next hnone =>
    rw [hnone]
    rfl
  · exact List.filter_eq_self.mpr fun t ht => decide_eq_true (hne t ht)

namespace Model

/-! ## One change under another -/

/-- A build list is bounded by that of another change, but for some names, when its tests are, when its runtimes are built
for the other change as well, and when everything that those names depend on is tested for it. -/
theorem buildingFor_dominated {m : Model} {platform : String} {touched other : NameSet} {spared : String → Prop}
    (htested : ∀ x ∈ m.testedProjects touched platform, x ∈ m.testedProjects other platform ∨ spared x)
    (hruntimes : (m.select touched platform).runtimesBuilt ⊆ (m.select other platform).runtimesBuilt)
    (hspared : ∀ x y, spared x → m.dependencies.Step x y → y ∈ m.testedProjects other platform) {x : String}
    (hx : x ∈ m.buildingFor touched platform) : x ∈ m.buildingFor other platform ∨ spared x := by
  rcases mem_buildList.mp hx with ⟨t, ht, hreach⟩ | ⟨r, hr, hstep⟩
  · rcases htested t ht with ht | ht
    · exact .inl (mem_buildList.mpr (.inl ⟨t, ht, hreach⟩))
    · -- a spared name is built for itself, or the first step from it leads to a test of the other change
      rcases Relation.ReflTransGen.cases_head hreach with rfl | ⟨y, hstep, hrest⟩
      · exact .inr ht
      · exact .inl (mem_buildList.mpr (.inl ⟨y, hspared t y ht hstep, hrest⟩))
  · exact .inl (mem_buildList.mpr (.inr ⟨r, hruntimes r hr, hstep⟩))

/-- names that only they themselves depend on are not built for others -/
theorem not_buildingFor_of_cut {m : Model} {platform : String} {touched : NameSet} {cut : String → Prop}
    (hcut : ∀ x y, m.dependencies.Step x y → cut y → cut x) (htested : ∀ x ∈ m.testedProjects touched platform, ¬ cut x)
    (hruntimes : ∀ x ∈ (m.select touched platform).runtimesBuilt, ¬ cut x) {x : String}
    (hx : x ∈ m.buildingFor touched platform) : ¬ cut x := by
  -- back along the steps
  have hback : ∀ t y, m.dependencies.Reaches t y → cut y → cut t := by
    intro t y hreach
    induction hreach with
    | refl => exact id
    | tail _ hstep ih => exact fun hc => ih (hcut _ _ hstep hc)
  intro hc
  rcases mem_buildList.mp hx with ⟨t, ht, hreach⟩ | ⟨r, hr, hstep⟩
  · exact htested t ht (hback t x hreach hc)
  · exact hruntimes r hr (hcut r x hstep hc)

/-- what one table gives to any name, another table gives to one name -/
theorem runtimesOf_dominated (m : Model) (lists others : NameLists) {name : String} (hkeys : others.keys.Nodup)
    (h : ∀ e ∈ lists, ∀ x ∈ e.2, ∃ row ∈ others, row.1 = name ∧ x ∈ row.2) (touched : NameSet) (platform : String) :
    m.runtimesOf lists.toTable touched platform ⊆ m.runtimesOf others.toTable (.ofList [name]) platform := by
  intro x hx
  obtain ⟨⟨y, -, hgiven⟩, hkept⟩ := mem_runtimesOf.mp hx
  obtain ⟨names, hm, hxn⟩ := NameLists.mem_of_mem_members_toTable hgiven
  obtain ⟨⟨_, row⟩, hrow, rfl, hxr⟩ := h _ hm x hxn
  refine mem_runtimesOf.mpr ⟨⟨_, NameSet.mem_ofList.mpr List.mem_cons_self, ?_⟩, hkept⟩
  exact (NameLists.mem_members_toTable hkeys).mpr ⟨row, hrow, hxr⟩

end Model

namespace Bundled

/-! ## Lists of the bundled tables -/

theorem mem_items_listed {s : NameSet} (h : ∀ x ∈ s, model.Known x) {x : String} :
    x ∈ itemsIn ';' (listed s) ↔ x ∈ s := by
  have hblank : ∀ x ∈ projects ++ runtimes, x ≠ "" := by decide
  have hnames : ∀ x ∈ s.names, x ≠ "" := fun x hx => hblank x (List.mem_append.mpr (Model.known_ofTables.mp (h x hx)))
  have hitems : itemsIn ';' (listed s) = s.names :=
    itemsIn_joined (fun x hx => Model.no_semicolon_of_known (h x hx)) hnames
  rw [hitems, NameSet.mem_names]

theorem consistent : model.Consistent :=
  Model.consistent_of_ofValue Model.ofValue_bundled

theorem mem_items_built {touched : NameSet} {platform x : String} :
    x ∈ itemsIn ';' (listed (model.select touched platform).built) ↔ x ∈ (model.select touched platform).built :=
  mem_items_listed fun _ hx => Model.known_of_mem_built consistent hx

theorem mem_items_runtimesBuilt {touched : NameSet} {platform x : String} :
    x ∈ itemsIn ';' (listed (model.select touched platform).runtimesBuilt) ↔
      x ∈ (model.select touched platform).runtimesBuilt :=
  mem_items_listed fun x hx => .inr (Model.runtimesBuilt_subset consistent _ _ x hx)

theorem mem_items_targets {s : NameSet} {t : String} :
    t ∈ itemsIn ' ' (joined ' ' (targetsOf model.checkTargets s)) ↔ ∃ x ∈ s, model.checkTargets.get? x = some t := by
  have hblank : ∀ e ∈ checkTargets, e.2 ≠ "" := by decide
  have hitems : itemsIn ' ' (joined ' ' (targetsOf model.checkTargets s)) = targetsOf model.checkTargets s := by
    apply itemsIn_joined
    · intro t ht
      obtain ⟨x, -, hx⟩ := Model.mem_targetsOf.mp ht
      exact Model.no_space_of_target hx
    · intro t ht
      obtain ⟨x, -, hx⟩ := Model.mem_targetsOf.mp ht
      exact hblank _ (Model.mem_checkTargets_bundled hx)
  rw [hitems, Model.mem_targetsOf]

theorem items_targets_of_subset {a b : NameSet} (h : a ⊆ b) {t : String}
    (ht : t ∈ itemsIn ' ' (joined ' ' (targetsOf model.checkTargets a))) :
    t ∈ itemsIn ' ' (joined ' ' (targetsOf model.checkTargets b)) := by
  obtain ⟨x, hx, hxt⟩ := mem_items_targets.mp ht
  exact mem_items_targets.mpr ⟨x, h x hx, hxt⟩

/-! ## The continuous integration's files -/

/-- a file of the continuous integration's own directory that is none of its documents -/
def OfIntegration (file : String) : Prop :=
  (segments (slashed file))[0]? = some ".ci" ∧ (segments (slashed file))[1]? ≠ some "docs"

/-- no rule covers such a file -/
theorem not_covers_integration {path : List String} (hfirst : path[0]? = some ".ci") (hdocs : path[1]? ≠ some "docs")
    {r : Rule} (hr : r ∈ model.rules) : ¬ covers r.segments path = true := by
  have hrules : ∀ r ∈ rules, r.segments[0]? ≠ none ∧
      (r.segments[0]? = some wildcard ∨ r.segments[0]? = some ".ci" → r.segments = ["*", "docs"]) := by decide
  intro hc
  obtain ⟨hsome, hstarting⟩ := hrules r hr
  obtain ⟨p, hp⟩ := Option.ne_none_iff_exists'.mp hsome
  obtain ⟨s, hs, hfits⟩ := covers_iff.mp hc 0 p hp
  obtain rfl : ".ci" = s := Option.some.inj (hfirst.symm.trans hs)
  have hpattern : r.segments = ["*", "docs"] := by
    apply hstarting
    rcases hfits with rfl | rfl
    · exact .inl hp
    · exact .inr hp
  rw [hpattern] at hc
  exact hdocs (covers_docs.mp hc)

/-- a file of the continuous integration belongs to it alone -/
theorem owners_of_integration {path : List String} (hfirst : path[0]? = some ".ci") (hdocs : path[1]? ≠ some "docs")
    {x : String} : x ∈ model.ownersOf path ↔ x = ".ci" := by
  have hnone : ∀ r ∈ model.rules, ¬ covers r.segments path = true := fun _ => not_covers_integration hfirst hdocs
  rw [Model.mem_ownersOf, List.head?_eq_getElem?, hfirst]
  constructor
  · intro h
    rcases h.2 with hx | ⟨-, r, hr, hc, -⟩
    · exact (Option.some.inj hx).symm
    · exact absurd hc (hnone r hr)
  · intro hx
    exact ⟨fun r hr hc => absurd hc (hnone r hr), .inl (congrArg some hx.symm)⟩

theorem touched_of_integration {file : String} (h : OfIntegration file) :
    model.touched (cleanAll [file]).names = .ofList [".ci"] := by
  ext x
  rw [Model.mem_touched_cleanAll, NameSet.mem_ofList, List.mem_singleton]
  simp only [List.mem_singleton, exists_eq_left, Model.owners, segments_clean]
  exact owners_of_integration h.1 h.2

/-! ## The continuous integration's rows -/

/-- the projects that are tested for the continuous integration -/
def TestedForIntegration (p : Platform) (x : String) : Prop :=
  (∃ row ∈ dependents, row.1 = ".ci" ∧ x ∈ row.2) ∧ x ∉ excludedDependents.get p ∧ x ∉ excluded.get p

instance (p : Platform) (x : String) : Decidable (TestedForIntegration p x) :=
  inferInstanceAs (Decidable (_ ∧ _ ∧ _))

/-- what is tested when it changes itself, and not for the continuous integration -/
def spared : Platform → List String
  | .windows => ["lit", "flang"]
  | .linux | .darwin => ["lit"]

theorem mem_excludedDependents {p : Platform} {x : String} :
    x ∈ model.excludedDependents.setFor p.name ↔ x ∈ excludedDependents.get p := by
  rw [Model.mem_setFor_name, model, Model.ofTables, PerPlatform.get_map, NameSet.mem_ofList]
  rfl

theorem mem_excluded {p : Platform} {x : String} : x ∈ model.excluded.setFor p.name ↔ x ∈ excluded.get p := by
  rw [Model.mem_setFor_name, Model.mem_excluded_bundled]

theorem tested_integration_iff {p : Platform} {x : String} :
    x ∈ model.testedProjects (.ofList [".ci"]) p.name ↔ TestedForIntegration p x := by
  have hproject : ".ci" ∉ model.runtimes := fun h => absurd (NameSet.mem_ofList.mp h) (by decide)
  have htarget : model.checkTargets.get? ".ci" = none := (Table.get?_ofEntries _ _).trans (by decide)
  have hrow : x ∈ model.dependents.members ".ci" ↔ ∃ row ∈ dependents, row.1 = ".ci" ∧ x ∈ row.2 := by
    have hmembers : x ∈ model.dependents.members ".ci" ↔ ∃ names, (".ci", names) ∈ dependents ∧ x ∈ names :=
      NameLists.mem_members_toTable (by decide)
    rw [hmembers]
    simp only [Prod.exists, ↓existsAndEq, true_and]
  simp only [Model.mem_testedProjects, NameSet.mem_ofList, List.mem_singleton, exists_eq_left, htarget,
    Option.isSome_none, Bool.false_eq_true, and_false, false_or, mem_excludedDependents, mem_excluded, hrow, hproject,
    not_false_eq_true, true_and, TestedForIntegration, and_assoc]

/-- whatever is tested for some names is tested for the continuous integration, or is spared -/
theorem tested_dominated {p : Platform} {touched : NameSet} {x : String} (hx : x ∈ model.testedProjects touched p.name) :
    x ∈ model.testedProjects (.ofList [".ci"]) p.name ∨ x ∈ spared p := by
  have hself : ∀ p : Platform, ∀ e ∈ checkTargets, e.1 ∉ runtimes → e.1 ∉ excluded.get p →
      TestedForIntegration p e.1 ∨ e.1 ∈ spared p := by
    intro p
    cases p <;> decide
  have hdependent : ∀ p : Platform, ∀ e ∈ dependents, ∀ x ∈ e.2, x ∉ excludedDependents.get p → x ∉ excluded.get p →
      TestedForIntegration p x ∨ x ∈ spared p := by
    intro p
    cases p <;> decide
  rw [tested_integration_iff]
  obtain ⟨⟨y, -, hproject, hasked⟩, hkept⟩ := Model.mem_testedProjects.mp hx
  rw [mem_excluded] at hkept
  rcases hasked with ⟨rfl, htarget⟩ | ⟨hd, hfree⟩
  · obtain ⟨target, htarget⟩ := Option.isSome_iff_exists.mp htarget
    exact hself p _ (Model.mem_checkTargets_bundled htarget) (fun hr => hproject (NameSet.mem_ofList.mpr hr)) hkept
  · obtain ⟨names, hm, hxn⟩ := NameLists.mem_of_mem_members_toTable hd
    exact hdependent p _ hm x hxn (fun h => hfree (mem_excludedDependents.mpr h)) hkept

theorem runtimesTested_dominated (touched : NameSet) (platform : String) :
    (model.select touched platform).runtimesTested ⊆ (model.select (.ofList [".ci"]) platform).runtimesTested :=
  model.runtimesOf_dominated runtimesTested runtimesTested (by decide) (by decide) touched platform

theorem runtimesReconfigured_dominated (touched : NameSet) (platform : String) :
    (model.select touched platform).runtimesReconfigured ⊆
      (model.select (.ofList [".ci"]) platform).runtimesReconfigured :=
  model.runtimesOf_dominated runtimesReconfigured runtimesReconfigured (by decide) (by decide) touched platform

/-- the runtimes that are only built for a project are reconfigured for the continuous integration -/
theorem runtimesBuilt_dominated (touched : NameSet) (platform : String) :
    (model.select touched platform).runtimesBuilt ⊆ (model.select (.ofList [".ci"]) platform).runtimesBuilt := by
  have hbuilt : model.runtimesOf model.runtimesBuilt touched platform ⊆
      (model.select (.ofList [".ci"]) platform).runtimesReconfigured :=
    model.runtimesOf_dominated runtimesBuilt runtimesReconfigured (by decide) (by decide) touched platform
  intro x hx
  refine NameSet.mem_union.mpr (.inl (NameSet.mem_union.mpr ?_))
  rcases NameSet.mem_union.mp hx with hx | hx
  · rcases NameSet.mem_union.mp hx with hx | hx
    · exact .inl (runtimesTested_dominated touched platform x hx)
    · exact .inr (runtimesReconfigured_dominated touched platform x hx)
  · exact .inr (hbuilt x hx)

theorem listed_of_step {x y : String} (h : model.dependencies.Step x y) : ∃ names, (x, names) ∈ dependencies ∧ y ∈ names :=
  have hlisted : y ∈ dependencies.toTable.members x := h
  NameLists.mem_of_mem_members_toTable hlisted

/-- what a spared name depends on is tested for the continuous integration -/
theorem tested_of_spared {p : Platform} {x y : String} (hx : x ∈ spared p) (hstep : model.dependencies.Step x y) :
    y ∈ model.testedProjects (.ofList [".ci"]) p.name := by
  have hlists : ∀ p : Platform, ∀ e ∈ dependencies, e.1 ∈ spared p → ∀ y ∈ e.2, TestedForIntegration p y := by
    intro p
    cases p <;> decide
  obtain ⟨names, hm, hy⟩ := listed_of_step hstep
  exact tested_integration_iff.mpr (hlists p _ hm hx y hy)

/-- the only spared name that is listed -/
theorem listed_of_spared {p : Platform} {x : String} (hx : x ∈ spared p) (hlisted : x ∉ model.unlisted) :
    p = .windows ∧ x = "flang" := by
  have hnames : ∀ p : Platform, ∀ x ∈ spared p, x ∉ tables.unlisted → p = .windows ∧ x = "flang" := by
    intro p
    cases p <;> decide
  exact hnames p x hx fun h => hlisted (NameSet.mem_ofList.mpr h)

theorem target_of_spared {p : Platform} {x t : String} (hx : x ∈ spared p) (ht : model.checkTargets.get? x = some t) :
    t = "check-lit" ∨ p = .windows ∧ t = "check-flang" := by
  have htargets : ∀ p : Platform, ∀ e ∈ checkTargets, e.1 ∈ spared p →
      e.2 = "check-lit" ∨ p = .windows ∧ e.2 = "check-flang" := by
    intro p
    cases p <;> decide
  exact htargets p _ (Model.mem_checkTargets_bundled ht) hx

theorem built_dominated {p : Platform} {touched : NameSet} {x : String} (hx : x ∈ (model.select touched p.name).built) :
    x ∈ (model.select (.ofList [".ci"]) p.name).built ∨ p = .windows ∧ x = "flang" := by
  obtain ⟨hbuilding, hlisted⟩ := Model.mem_built_select.mp hx
  rcases Model.buildingFor_dominated (fun _ => tested_dominated) (runtimesBuilt_dominated touched p.name)
    (fun _ _ => tested_of_spared) hbuilding with h | h
  · exact .inl (Model.mem_built_select.mpr ⟨h, hlisted⟩)
  · exact .inr (listed_of_spared h hlisted)

theorem targets_dominated {p : Platform} {touched : NameSet} {t : String}
    (ht : t ∈ itemsIn ' ' (joined ' ' (targetsOf model.checkTargets (model.testedProjects touched p.name)))) :
    t ∈ itemsIn ' ' (joined ' ' (targetsOf model.checkTargets (model.testedProjects (.ofList [".ci"]) p.name))) ∨
      t = "check-lit" ∨ p = .windows ∧ t = "check-flang" := by
  obtain ⟨x, hx, hxt⟩ := mem_items_targets.mp ht
  rcases tested_dominated hx with hx | hx
  · exact .inl (mem_items_targets.mpr ⟨x, hx, hxt⟩)
  · exact .inr (target_of_spared hx hxt)

/-- list by list, what is printed for some names is printed for the continuous integration -/
theorem environment_dominated (touched : NameSet) (p : Platform) :
    let change := Environment.ofSelection model.checkTargets (model.select touched p.name)
    let integration := Environment.ofSelection model.checkTargets (model.select (.ofList [".ci"]) p.name)
    (∀ x ∈ itemsIn ';' change.built, x ∈ itemsIn ';' integration.built ∨ p = .windows ∧ x = "flang") ∧
    (∀ x ∈ itemsIn ';' change.runtimesBuilt, x ∈ itemsIn ';' integration.runtimesBuilt) ∧
    (∀ t ∈ itemsIn ' ' change.checkTargets,
      t ∈ itemsIn ' ' integration.checkTargets ∨ t = "check-lit" ∨ p = .windows ∧ t = "check-flang") ∧
    (∀ t ∈ itemsIn ' ' change.runtimeTargets, t ∈ itemsIn ' ' integration.runtimeTargets) ∧
    (∀ t ∈ itemsIn ' ' change.reconfiguredTargets, t ∈ itemsIn ' ' integration.reconfiguredTargets) := by
  intro change integration
  refine ⟨fun x hx => ?_, fun x hx => ?_, fun t ht => targets_dominated ht, fun t ht => ?_, fun t ht => ?_⟩
  · have hbuilt : x ∈ (model.select touched p.name).built := mem_items_built.mp hx
    rcases built_dominated hbuilt with h | h
    · exact .inl (mem_items_built.mpr h)
    · exact .inr h
  · have hbuilt : x ∈ (model.select touched p.name).runtimesBuilt := mem_items_runtimesBuilt.mp hx
    exact mem_items_runtimesBuilt.mpr (runtimesBuilt_dominated touched p.name x hbuilt)
  · exact items_targets_of_subset (runtimesTested_dominated touched p.name) ht
  · exact items_targets_of_subset (runtimesReconfigured_dominated touched p.name) ht

/-! ## Where the bound is exceeded -/

/-- on the platform that tests it for itself only, a spared project is not built for the continuous integration -/
theorem not_built_for_integration : "flang" ∉ (model.select (.ofList [".ci"]) Platform.windows.name).built := by
  let cut : String → Prop := fun x => x ∈ ["flang", "flang-rt"]
  have hcut : ∀ x y, model.dependencies.Step x y → cut y → cut x := by
    have hlists : ∀ e ∈ dependencies, ∀ y ∈ e.2, y ∈ ["flang", "flang-rt"] → e.1 ∈ ["flang", "flang-rt"] := by decide
    intro x y hstep hy
    obtain ⟨names, hm, hyn⟩ := listed_of_step hstep
    exact hlists _ hm y hyn hy
  have htested : ∀ x ∈ model.testedProjects (.ofList [".ci"]) Platform.windows.name, ¬ cut x := by
    have hrow : ∀ x ∈ ["flang", "flang-rt"], ¬ TestedForIntegration .windows x := by decide
    intro x hx hc
    exact hrow x hc (tested_integration_iff.mp hx)
  have hruntimes : ∀ x ∈ (model.select (.ofList [".ci"]) Platform.windows.name).runtimesBuilt, ¬ cut x := by
    have hlists : ∀ x ∈ ["flang", "flang-rt"], x ∈ runtimes → x ∈ excluded.get .windows := by decide
    intro x hx hc
    have hruntime : x ∈ runtimes := NameSet.mem_ofList.mp (Model.runtimesBuilt_subset consistent _ _ x hx)
    exact Model.not_excluded_of_mem_runtimesBuilt hx (mem_excluded.mpr (hlists x hc hruntime))
  intro h
  have hflang : ¬ cut "flang" := Model.not_buildingFor_of_cut hcut htested hruntimes (Model.mem_built_select.mp h).1
  exact hflang List.mem_cons_self

theorem not_target_of_not_tested {p : Platform} {x t : String} (ht : model.checkTargets.get? x = some t)
    (hx : ¬ TestedForIntegration p x) :
    t ∉ itemsIn ' ' (joined ' ' (targetsOf model.checkTargets (model.testedProjects (.ofList [".ci"]) p.name))) := by
  intro h
  obtain ⟨y, hy, hyt⟩ := mem_items_targets.mp h
  obtain rfl : x = y := Model.target_injective ht hyt
  exact hx (tested_integration_iff.mp hy)

/-- a project with a check target is tested when one of its own files changes -/
theorem tested_of_owner {p : Platform} {files : List String} {x t : String} {f : String} (hf : f ∈ files)
    (howner : x ∈ model.owners (clean f)) (hproject : x ∉ runtimes) (ht : model.checkTargets.get? x = some t)
    (hkept : x ∉ excluded.get p) : x ∈ (model.scope files p.name).selection.tested := by
  refine Model.mem_testedProjects.mpr ⟨⟨x, Model.mem_touched_cleanAll.mpr ⟨f, hf, howner⟩, ?_, .inl ⟨rfl, ?_⟩⟩, ?_⟩
  · exact fun hr => hproject (NameSet.mem_ofList.mp hr)
  · exact Option.isSome_iff_exists.mpr ⟨t, ht⟩
  · exact fun he => hkept (mem_excluded.mp he)

theorem target_lit : model.checkTargets.get? "lit" = some "check-lit" :=
  (Table.get?_ofEntries _ _).trans (by decide)

theorem target_flang : model.checkTargets.get? "flang" = some "check-flang" :=
  (Table.get?_ofEntries _ _).trans (by decide)

/-- every platform tests `lit` when it changes itself -/
theorem lit_called_for (p : Platform) :
    "check-lit" ∈ itemsIn ' ' (model.scope ["lit/lit.py"] p.name).environment.checkTargets := by
  have hkept : "lit" ∉ excluded.get p := by
    cases p <;> decide
  have htested : "lit" ∈ (model.scope ["lit/lit.py"] p.name).selection.tested :=
    tested_of_owner List.mem_cons_self (by decide +kernel) (by decide) target_lit hkept
  exact mem_items_targets.mpr ⟨"lit", htested, target_lit⟩

theorem flang_called_for :
    "flang" ∈ itemsIn ';' (model.scope ["flang/module.f90"] Platform.windows.name).environment.built ∧
      "check-flang" ∈ itemsIn ' ' (model.scope ["flang/module.f90"] Platform.windows.name).environment.checkTargets := by
  have htested : "flang" ∈ (model.scope ["flang/module.f90"] Platform.windows.name).selection.tested :=
    tested_of_owner List.mem_cons_self (by decide +kernel) (by decide) target_flang (by decide)
  have hlisted : "flang" ∉ model.unlisted := fun h => absurd (NameSet.mem_ofList.mp h) (by decide)
  have hbuilt : "flang" ∈ (model.scope ["flang/module.f90"] Platform.windows.name).selection.built :=
    Model.mem_built_select.mpr ⟨Model.mem_buildList.mpr (.inl ⟨"flang", htested, .refl⟩), hlisted⟩
  exact ⟨mem_items_built.mpr hbuilt, mem_items_targets.mpr ⟨"flang", htested, target_flang⟩⟩

/-! ## Changes -/

/-- **A change of the continuous integration calls for everything.** Under the bundled tables, for every change, every
platform and every file of the continuous integration: all that is in one of the printed lists for the change is in the
same list for the file alone, but for the target of `lit`, and on Windows the project `flang` and its target. The sentinel is
on for the file. Those three are called for by some change, and not by the file. -/
theorem scope_dominated_bundled (file : String) (hfile : OfIntegration file) (p : Platform) :
    let integration := (model.scope [file] p.name).environment
    (∀ files : List String,
      let change := (model.scope files p.name).environment
      (∀ x ∈ itemsIn ';' change.built, x ∈ itemsIn ';' integration.built ∨ p = .windows ∧ x = "flang") ∧
      (∀ x ∈ itemsIn ';' change.runtimesBuilt, x ∈ itemsIn ';' integration.runtimesBuilt) ∧
      (∀ t ∈ itemsIn ' ' change.checkTargets,
        t ∈ itemsIn ' ' integration.checkTargets ∨ t = "check-lit" ∨ p = .windows ∧ t = "check-flang") ∧
      (∀ t ∈ itemsIn ' ' change.runtimeTargets, t ∈ itemsIn ' ' integration.runtimeTargets) ∧
      (∀ t ∈ itemsIn ' ' change.reconfiguredTargets, t ∈ itemsIn ' ' integration.reconfiguredTargets)) ∧
    integration.sentinel = "ON" ∧
    ("check-lit" ∉ itemsIn ' ' integration.checkTargets ∧
      ∃ files, "check-lit" ∈ itemsIn ' ' (model.scope files p.name).environment.checkTargets) ∧
    (p = .windows →
      ("flang" ∉ itemsIn ';' integration.built ∧ "check-flang" ∉ itemsIn ' ' integration.checkTargets) ∧
      ∃ files, "flang" ∈ itemsIn ';' (model.scope files p.name).environment.built ∧
        "check-flang" ∈ itemsIn ' ' (model.scope files p.name).environment.checkTargets) := by
  intro integration
  have hintegration : integration = .ofSelection model.checkTargets (model.select (.ofList [".ci"]) p.name) := by
    rw [← touched_of_integration hfile]
    rfl
  have hsentinel : (model.select (.ofList [".ci"]) p.name).sentinel = true :=
    sentinel_iff_touched.mpr (.inr (NameSet.mem_ofList.mpr List.mem_cons_self))
  have hlit : ¬ TestedForIntegration p "lit" := by
    cases p <;> decide
  rw [hintegration]
  refine ⟨fun files => environment_dominated _ p, if_pos hsentinel, ⟨?_, _, lit_called_for p⟩, fun hwindows => ?_⟩
  · exact not_target_of_not_tested target_lit hlit
  · subst hwindows
    refine ⟨⟨?_, not_target_of_not_tested target_flang (by decide)⟩, _, flang_called_for⟩
    exact fun h => not_built_for_integration (mem_items_built.mp h)

/-- a script of the continuous integration, against a change of two projects on the platform that spares one of them -/
theorem scope_dominated_bundled_script :
    let integration := (model.scope [".ci/monolithic-windows.sh"] Platform.windows.name).environment
    let change := (model.scope ["flang/module.f90", "mlir/lib/Pass.cpp"] Platform.windows.name).environment
    OfIntegration ".ci/monolithic-windows.sh" ∧ integration.sentinel = "ON" ∧ "flang" ∉ itemsIn ';' integration.built ∧
    ∀ x ∈ itemsIn ';' change.built, x ∈ itemsIn ';' integration.built ∨ x = "flang" := by
  intro integration change
  have hfile : OfIntegration ".ci/monolithic-windows.sh" := ⟨by decide, by decide⟩
  obtain ⟨hchanges, hsentinel, -, hwindows⟩ := scope_dominated_bundled ".ci/monolithic-windows.sh" hfile .windows
  refine ⟨hfile, hsentinel, (hwindows rfl).1.1, fun x hx => ?_⟩
  exact ((hchanges _).1 x hx).imp_right And.right

end Bundled

end ChangeImpact
