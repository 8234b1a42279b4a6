/-
Only known names count.

Every table that a touched name is looked up in has known keys, so an unknown name selects nothing.
Since a selection is put together from what the touched names select one by one, two changes that
touch the same known names have the same selection, and with it the same environment.

Results:
- `select_of_unknown`: an unknown name selects nothing at all.
- `select_eq_of_known`: two sets of names with the same known members have the same selection.
- `Idle.not_known`: a file that is blank, skipped or foreign to the tables touches no known name.
- `scope_of_known_touched`: the same for changes under every accepted configuration, and idle files make no difference.
-/
import ChangeImpact.Proofs.Selection.Owners
import ChangeImpact.Proofs.Tables.Consistent

namespace ChangeImpact

namespace Model

/-! ## What an unknown name selects -/

theorem members_of_unknown {m : Model} (h : m.Consistent) {y : String} (hy : ¬ m.Known y) (n : TableName) (x : String) :
    x ∉ (m.table n).members y := by
  intro hx
  obtain ⟨s, hs, -⟩ := NameTable.mem_members.mp hx
  exact hy (h.keys n y s hs)

theorem not_tested_of_unknown {m : Model} (h : m.Consistent) {y : String} (hy : ¬ m.Known y) (platform x : String) :
    x ∉ m.testedProjects (.ofList [y]) platform := by
  intro hx
  obtain ⟨⟨z, hz, -, hasked⟩, -⟩ := mem_testedProjects.mp hx
  obtain rfl : z = y := by simpa using hz
  rcases hasked with ⟨-, ht⟩ | ⟨hd, -⟩
  · obtain ⟨target, ht⟩ := Option.isSome_iff_exists.mp ht
    exact hy (h.targets z target ht)
  · exact members_of_unknown h hy .dependents x hd

theorem no_runtimes_of_unknown {m : Model} (h : m.Consistent) {y : String} (hy : ¬ m.Known y) (n : TableName)
    (platform x : String) : x ∉ m.runtimesOf (m.table n) (.ofList [y]) platform := by
  intro hx
  obtain ⟨⟨z, hz, hgiven⟩, -⟩ := mem_runtimesOf.mp hx
  obtain rfl : z = y := by simpa using hz
  exact members_of_unknown h hy n x hgiven

theorem no_runtimesBuilt_of_unknown {m : Model} (h : m.Consistent) {y : String} (hy : ¬ m.Known y)
    (platform x : String) : x ∉ (m.select (.ofList [y]) platform).runtimesBuilt := by
  intro hx
  rcases NameSet.mem_union.mp hx with hx | hx
  · rcases NameSet.mem_union.mp hx with hx | hx
    · exact no_runtimes_of_unknown h hy .runtimesTested platform x hx
    · exact no_runtimes_of_unknown h hy .runtimesReconfigured platform x hx
  · exact no_runtimes_of_unknown h hy .runtimesBuilt platform x hx

theorem not_building_of_unknown {m : Model} (h : m.Consistent) {y : String} (hy : ¬ m.Known y) (platform x : String) :
    x ∉ m.buildingFor (.ofList [y]) platform := by
  intro hx
  rcases mem_buildList.mp hx with ⟨t, ht, -⟩ | ⟨r, hr, -⟩
  · exact not_tested_of_unknown h hy platform t ht
  · exact no_runtimesBuilt_of_unknown h hy platform r hr

/-- an unknown name selects nothing, and the sentinel is not found for it -/
theorem select_of_unknown {m : Model} (h : m.Consistent) {y : String} (hy : ¬ m.Known y) (platform : String) :
    m.select (.ofList [y]) platform = ∅ := by
  refine Selection.ext_parts (fun p => NameSet.ext fun x => ?_) ?_
  · rw [Selection.part_empty]
    refine iff_of_false ?_ (NameSet.not_mem_empty x)
    cases p with
    | tested => exact not_tested_of_unknown h hy platform x
    | built => exact fun hx => not_building_of_unknown h hy platform x (mem_built_select.mp hx).1
    | runtimesTested => exact no_runtimes_of_unknown h hy .runtimesTested platform x
    | runtimesReconfigured => exact no_runtimes_of_unknown h hy .runtimesReconfigured platform x
    | runtimesBuilt => exact no_runtimesBuilt_of_unknown h hy platform x
  · refine Bool.eq_false_iff.mpr fun hs => ?_
    obtain ⟨c, -, hc⟩ := sentinel_select.mp hs
    exact not_building_of_unknown h hy platform c hc

/-! ## Sets with the same known names -/

theorem part_subset_of_known {m : Model} (h : m.Consistent) (platform : String) {a b : NameSet}
    (hab : ∀ y, m.Known y → y ∈ a → y ∈ b) (p : Part) :
    (m.select a platform).part p ⊆ (m.select b platform).part p := by
  intro x hx
  obtain ⟨y, hy, hx⟩ := (m.additive_part platform p a x).mp hx
  by_cases hk : m.Known y
  · exact (m.additive_part platform p b x).mpr ⟨y, hab y hk hy, hx⟩
  · simp only [select_of_unknown h hk, Selection.part_empty] at hx
    exact absurd hx (NameSet.not_mem_empty x)

theorem sentinel_of_known {m : Model} (h : m.Consistent) (platform : String) {a b : NameSet}
    (hab : ∀ y, m.Known y → y ∈ a → y ∈ b) (hs : (m.select a platform).sentinel = true) :
    (m.select b platform).sentinel = true := by
  obtain ⟨y, hy, hs⟩ := (m.sentinel_select_iff_exists platform a).mp hs
  by_cases hk : m.Known y
  · exact (m.sentinel_select_iff_exists platform b).mpr ⟨y, hab y hk hy, hs⟩
  · rw [select_of_unknown h hk] at hs
    exact absurd hs Bool.false_ne_true

theorem select_eq_of_known {m : Model} (h : m.Consistent) (platform : String) {a b : NameSet}
    (hab : ∀ y, m.Known y → (y ∈ a ↔ y ∈ b)) : m.select a platform = m.select b platform := by
  have hto : ∀ y, m.Known y → y ∈ a → y ∈ b := fun y hk => (hab y hk).mp
  have hfrom : ∀ y, m.Known y → y ∈ b → y ∈ a := fun y hk => (hab y hk).mpr
  refine Selection.ext_parts (fun p => NameSet.ext fun x => ?_) (Bool.eq_iff_iff.mpr ?_)
  · exact ⟨part_subset_of_known h platform hto p x, part_subset_of_known h platform hfrom p x⟩
  · exact ⟨sentinel_of_known h platform hto, sentinel_of_known h platform hfrom⟩

/-! ## Files that make no difference -/

/-- a file that is blank, that a rule gives to a skipped project, or that touches unknown names only -/
inductive Idle (m : Model) (file : String) : Prop
  | blank (h : Text.trim file = "")
  | skipped (r : Rule) (hr : r ∈ m.rules) (hc : covers r.segments (segments (clean file)) = true)
      (hs : r.project ∈ m.skipped)
  | foreign (h : ∀ x ∈ m.owners (clean file), ¬ m.Known x)

theorem clean_of_blank {file : String} (h : Text.trim file = "") : clean file = "" := by
  unfold clean slashed
  rw [h]
  rfl

theorem owners_of_skipped {m : Model} {path : String} {r : Rule} (hr : r ∈ m.rules)
    (hc : covers r.segments (segments path) = true) (hs : r.project ∈ m.skipped) : m.owners path = ∅ := by
  ext x
  refine iff_of_false (fun hx => ?_) (NameSet.not_mem_empty x)
  obtain ⟨hfree, -⟩ := mem_ownersOf.mp hx
  exact hfree r hr hc hs

theorem Idle.not_known {m : Model} {file x : String} (h : m.Idle file) (hx : x ∈ m.owners (clean file)) : ¬ m.Known x := by
  cases h with
  | blank h =>
    rw [m.owners_clean_eq_empty (clean_of_blank h)] at hx
    exact absurd hx (NameSet.not_mem_empty x)
  | skipped r hr hc hs =>
    rw [owners_of_skipped hr hc hs] at hx
    exact absurd hx (NameSet.not_mem_empty x)
  | foreign h => exact h x hx

theorem touched_iff_of_idle {m : Model} {files more : List String} (hsub : ∀ f ∈ files, f ∈ more)
    (hidle : ∀ f ∈ more, f ∈ files ∨ m.Idle f) {x : String} (hx : m.Known x) :
    x ∈ m.touched (cleanAll files).names ↔ x ∈ m.touched (cleanAll more).names := by
  constructor
  · exact m.touched_subset hsub x
  · intro hm
    obtain ⟨f, hf, ho⟩ := mem_touched_cleanAll.mp hm
    rcases hidle f hf with hf | hi
    · exact mem_touched_cleanAll.mpr ⟨f, hf, ho⟩
    · exact absurd hx (hi.not_known ho)

/-! ## Changes -/

/-- **Only known names count.** Under every accepted configuration and for every platform, two changes whose touched names
have the same intersection with the known names have the same selection and the same environment. In particular any number
of blank, skipped or foreign files, wherever they are put in a list, change neither. -/
theorem scope_of_known_touched (v : Value) (m : Model) (hv : ofValue v = .ok m) (platform : String) :
    (∀ files others : List String,
      (m.scope files platform).touched.toSet ∩ (m.projects ∪ m.runtimes).toSet =
        (m.scope others platform).touched.toSet ∩ (m.projects ∪ m.runtimes).toSet →
      (m.scope files platform).selection = (m.scope others platform).selection ∧
        (m.scope files platform).environment = (m.scope others platform).environment) ∧
    (∀ files more : List String, (∀ f ∈ files, f ∈ more) → (∀ f ∈ more, f ∈ files ∨ m.Idle f) →
      (m.scope files platform).selection = (m.scope more platform).selection ∧
        (m.scope files platform).environment = (m.scope more platform).environment) := by
  have h : m.Consistent := consistent_of_ofValue hv
  have hsame : ∀ files others : List String,
      (∀ x, m.Known x → (x ∈ m.touched (cleanAll files).names ↔ x ∈ m.touched (cleanAll others).names)) →
      (m.scope files platform).selection = (m.scope others platform).selection ∧
        (m.scope files platform).environment = (m.scope others platform).environment := by
    intro files others hx
    have hselection : (m.scope files platform).selection = (m.scope others platform).selection :=
      select_eq_of_known h platform hx
    exact ⟨hselection, congrArg (Environment.ofSelection m.checkTargets) hselection⟩
  refine ⟨fun files others hinter => hsame files others fun x hk => ?_,
    fun files more hsub hidle => hsame files more fun x hk => touched_iff_of_idle hsub hidle hk⟩
  have hmem : x ∈ (m.projects ∪ m.runtimes).toSet := NameSet.mem_union.mpr hk
  have hx := Set.ext_iff.mp hinter x
  simp only [Set.mem_inter_iff, hmem, and_true] at hx
  exact hx

/-- a change of the bundled tables' repository with a file of the documentation, a blank one and one in a directory that the
tables do not know -/
theorem bundled_scope_of_known_touched :
    ofValue Bundled.tables.toValue = .ok Bundled.model ∧
    (Bundled.model.scope ["clang/lib/Sema/Sema.cpp"] "Linux").environment =
      (Bundled.model.scope ["llvm/docs/index.rst", "clang/lib/Sema/Sema.cpp", " ", "unheard-of/a.c"] "Linux").environment := by
  have hdocs : Bundled.model.Idle "llvm/docs/index.rst" :=
    .skipped ⟨["*", "docs"], "docs"⟩ (by decide) (by decide +kernel) (NameSet.mem_ofList.mpr (by decide))
  have hblank : Bundled.model.Idle " " := .blank (by decide)
  have howners : ∀ x ∈ (Bundled.model.owners (clean "unheard-of/a.c")).names, ¬ Bundled.tables.Known x := by decide +kernel
  have hforeign : Bundled.model.Idle "unheard-of/a.c" :=
    .foreign fun x hx hk => howners x hx (known_ofTables.mp hk)
  refine ⟨ofValue_bundled, ((scope_of_known_touched _ _ ofValue_bundled "Linux").2 _ _ ?_ ?_).2⟩
  · simp
  · simp [hdocs, hblank, hforeign]

end Model

end ChangeImpact
