/-
Selected names are known names.

The touched names of a change are segments of its paths and so may be anything. What is selected for
them is not: the names that reach a part of a selection are keys of the check targets or members of
the other tables, and in a consistent model those are known.

Results:
- `runtimesOf_subset`, `known_of_mem_tested`, `of_mem_built`: each part of the selection of any set of touched names.
- `scope_keeps_to_known_names`: the same for every change under every accepted configuration, and the
  projects apart from the runtimes when no runtime is a dependency or a dependent.
-/
import ChangeImpact.Proofs.Selection.Declared
import ChangeImpact.Proofs.Tables.Consistent
import ChangeImpact.Selection.Scope

namespace ChangeImpact

namespace Model

/-- no runtime is listed as a dependency or as a dependent -/
def ProjectsOnly (m : Model) : Prop :=
  ∀ key x, x ∈ m.dependencies.members key ∨ x ∈ m.dependents.members key → x ∉ m.runtimes

/-! ## The parts of a selection -/

theorem runtimesOf_subset {m : Model} (h : m.Consistent) {n : TableName} (hn : n ∈ TableName.ofRuntimes)
    (touched : NameSet) (platform : String) : m.runtimesOf (m.table n) touched platform ⊆ m.runtimes := by
  intro x hx
  obtain ⟨⟨y, -, hxy⟩, -⟩ := mem_runtimesOf.mp hx
  exact h.runtimeMembers n hn y x hxy

theorem known_of_mem_tested {m : Model} (h : m.Consistent) {touched : NameSet} {platform x : String}
    (hx : x ∈ m.testedProjects touched platform) : m.Known x := by
  obtain ⟨⟨y, -, -, ⟨rfl, ht⟩ | ⟨hd, -⟩⟩, -⟩ := mem_testedProjects.mp hx
  · obtain ⟨target, ht⟩ := Option.isSome_iff_exists.mp ht
    exact h.targets _ target ht
  · exact h.members .dependents y x hd

theorem not_runtime_of_mem_tested {m : Model} (h : m.ProjectsOnly) {touched : NameSet} {platform x : String}
    (hx : x ∈ m.testedProjects touched platform) : x ∉ m.runtimes := by
  obtain ⟨⟨y, -, hy, ⟨rfl, -⟩ | ⟨hd, -⟩⟩, -⟩ := mem_testedProjects.mp hx
  · exact hy
  · exact h y x (Or.inr hd)

/-- what holds of the tested projects and of all dependencies holds of all that is built -/
theorem of_mem_built {m : Model} {p : String → Prop} {touched : NameSet} {platform : String}
    (hdeps : ∀ key, ∀ x ∈ m.dependencies.members key, p x) (htested : ∀ x ∈ m.testedProjects touched platform, p x) :
    ∀ x ∈ (m.select touched platform).built, p x := by
  intro x hx
  rcases mem_buildList.mp (mem_built_select.mp hx).1 with ⟨t, ht, hreach⟩ | ⟨r, -, hstep⟩
  · exact hreach.induct_members hdeps (htested t ht)
  · exact hdeps r x hstep

theorem runtimesBuilt_subset {m : Model} (h : m.Consistent) (touched : NameSet) (platform : String) :
    (m.select touched platform).runtimesBuilt ⊆ m.runtimes := by
  intro x hx
  rcases NameSet.mem_union.mp hx with hx | hx
  · rcases NameSet.mem_union.mp hx with hx | hx
    · exact runtimesOf_subset h (n := .runtimesTested) (by decide) touched platform x hx
    · exact runtimesOf_subset h (n := .runtimesReconfigured) (by decide) touched platform x hx
  · exact runtimesOf_subset h (n := .runtimesBuilt) (by decide) touched platform x hx

theorem known_of_mem_built {m : Model} (h : m.Consistent) {touched : NameSet} {platform x : String}
    (hx : x ∈ (m.select touched platform).built) : m.Known x :=
  of_mem_built (fun key => h.members .dependencies key) (fun _ => known_of_mem_tested h) x hx

theorem not_runtime_of_mem_built {m : Model} (h : m.ProjectsOnly) {touched : NameSet} {platform x : String}
    (hx : x ∈ (m.select touched platform).built) : x ∉ m.runtimes :=
  of_mem_built (fun key y hy => h key y (Or.inl hy)) (fun _ => not_runtime_of_mem_tested h) x hx

/-! ## All changes under all accepted configurations -/

theorem projectsOnly_bundled : Bundled.model.ProjectsOnly := by
  have hlists : ∀ n ∈ [TableName.dependencies, .dependents], ∀ e ∈ Bundled.tables.table n, ∀ x ∈ e.2,
      x ∉ Bundled.tables.runtimes := by decide
  have hmodel : ∀ n ∈ [TableName.dependencies, .dependents], ∀ key, ∀ x ∈ (Bundled.model.table n).members key,
      x ∉ Bundled.model.runtimes := by
    intro n hn key x hx
    rw [Bundled.model, table_ofTables] at hx
    obtain ⟨names, hm, hx⟩ := NameLists.mem_of_mem_members_toTable hx
    intro hr
    exact hlists n hn _ hm x hx (NameSet.mem_ofList.mp hr)
  rintro key x (hx | hx)
  · exact hmodel .dependencies (by decide) key x hx
  · exact hmodel .dependents (by decide) key x hx

/-- **Selected names are known names.** Under every accepted configuration, for every change and platform, the lists of
runtimes hold runtimes, those that are tested being built too, and the lists of projects hold known names. When no
dependency and no dependent is a runtime, as in the bundled tables, the lists of projects hold projects only and have no
name in common with the lists of runtimes. -/
theorem scope_keeps_to_known_names :
    (∀ (v : Value) (m : Model), ofValue v = .ok m → ∀ (files : List String) (platform : String),
      let s := (m.scope files platform).selection
      (s.runtimesTested ⊆ m.runtimes ∧ s.runtimesReconfigured ⊆ m.runtimes ∧ s.runtimesBuilt ⊆ m.runtimes) ∧
      (s.runtimesTested ⊆ s.runtimesBuilt ∧ s.runtimesReconfigured ⊆ s.runtimesBuilt) ∧
      (s.tested ⊆ m.projects ∪ m.runtimes ∧ s.built ⊆ m.projects ∪ m.runtimes) ∧
      (m.ProjectsOnly →
        (s.tested ⊆ m.projects ∧ s.built ⊆ m.projects) ∧
        ∀ x, x ∈ s.tested ∨ x ∈ s.built →
          x ∉ s.runtimesTested ∧ x ∉ s.runtimesReconfigured ∧ x ∉ s.runtimesBuilt) ∧
      ∀ x, ¬ m.Known x →
        x ∉ s.tested ∧ x ∉ s.built ∧ x ∉ s.runtimesTested ∧ x ∉ s.runtimesReconfigured ∧ x ∉ s.runtimesBuilt) ∧
    Bundled.model.ProjectsOnly := by
  refine ⟨fun v m hv files platform => ?_, projectsOnly_bundled⟩
  have h : m.Consistent := consistent_of_ofValue hv
  intro s
  have htested : s.runtimesTested ⊆ s.runtimesBuilt :=
    fun x hx => NameSet.mem_union.mpr (Or.inl (NameSet.mem_union.mpr (Or.inl hx)))
  have hreconfigured : s.runtimesReconfigured ⊆ s.runtimesBuilt :=
    fun x hx => NameSet.mem_union.mpr (Or.inl (NameSet.mem_union.mpr (Or.inr hx)))
  have hbuilt : s.runtimesBuilt ⊆ m.runtimes := runtimesBuilt_subset h _ platform
  have hruntimes : ∀ x, x ∉ m.runtimes → x ∉ s.runtimesTested ∧ x ∉ s.runtimesReconfigured ∧ x ∉ s.runtimesBuilt :=
    fun x hx => ⟨fun hr => hx (hbuilt x (htested x hr)), fun hr => hx (hbuilt x (hreconfigured x hr)),
      fun hr => hx (hbuilt x hr)⟩
  refine ⟨⟨fun x hx => hbuilt x (htested x hx), fun x hx => hbuilt x (hreconfigured x hx), hbuilt⟩,
    ⟨htested, hreconfigured⟩, ⟨fun x hx => ?_, fun x hx => ?_⟩, fun hp => ?_, fun x hx => ?_⟩
  · exact NameSet.mem_union.mpr (known_of_mem_tested h hx)
  · exact NameSet.mem_union.mpr (known_of_mem_built h hx)
  · have hproject : ∀ x, x ∈ s.tested ∨ x ∈ s.built → x ∉ m.runtimes := by
      rintro x (hx | hx)
      · exact not_runtime_of_mem_tested hp hx
      · exact not_runtime_of_mem_built hp hx
    refine ⟨⟨fun x hx => ?_, fun x hx => ?_⟩, fun x hx => hruntimes x (hproject x hx)⟩
    · exact (known_of_mem_tested h hx).resolve_right (hproject x (Or.inl hx))
    · exact (known_of_mem_built h hx).resolve_right (hproject x (Or.inr hx))
  · exact ⟨fun ht => hx (known_of_mem_tested h ht), fun hb => hx (known_of_mem_built h hb),
      hruntimes x fun hr => hx (Or.inr hr)⟩

/-- the bundled tables and a change with a directory that they do not know -/
theorem bundled_scope_keeps_to_known_names :
    ofValue Bundled.tables.toValue = .ok Bundled.model ∧ Bundled.model.ProjectsOnly ∧
    let s := (Bundled.model.scope ["clang/lib/Sema/Sema.cpp", "unheard-of/a.c"] "Linux").selection
    s.built ⊆ Bundled.model.projects ∧ s.runtimesBuilt ⊆ Bundled.model.runtimes ∧ "unheard-of" ∉ s.tested := by
  have hunknown : ¬ Bundled.model.Known "unheard-of" := by
    rw [Bundled.model, known_ofTables]
    decide
  obtain ⟨hall, honly⟩ := scope_keeps_to_known_names
  obtain ⟨⟨-, -, hruntimes⟩, -, -, hprojects, hknown⟩ :=
    hall _ _ ofValue_bundled ["clang/lib/Sema/Sema.cpp", "unheard-of/a.c"] "Linux"
  exact ⟨ofValue_bundled, honly, (hprojects honly).1.2, hruntimes, (hknown _ hunknown).1⟩

end Model

end ChangeImpact
