/-
What holds of the names of an accepted configuration.

`Tables.Consistent` is the rule for names as written down, `Model.Consistent` what it comes to on the
sets and tables of a model: no name is both a project and a runtime, every key and member of a table
is known, and the tables of runtimes have runtimes for members.

Results:
- `offences_eq_nil_iff`: tables without offences are the consistent ones.
- `consistent_of_ofValue`: every model that a value is accepted as is consistent.
- `ofValue_bundled`: the bundled tables are accepted.
-/
import ChangeImpact.Tables.Bundled

namespace ChangeImpact

/-! ## Tables as they are written -/

theorem TableName.mem_all (n : TableName) : n ∈ TableName.all := by
  cases n <;> decide

theorem mem_distinct {x : String} {names : List String} : x ∈ distinct names ↔ x ∈ names := by
  induction names with
  | nil => simp [distinct]
  | cons y rest ih =>
    rw [distinct, List.mem_cons, List.mem_cons, List.mem_filter, ih]
    by_cases hxy : x = y
    · simp [hxy]
    · simp [hxy]

namespace Tables

/-- the names of the tables keep the rules -/
structure Consistent (t : Tables) : Prop where
  disjoint : ∀ x ∈ t.runtimes, x ∉ t.projects
  keys : ∀ n, ∀ e ∈ t.table n, t.Known e.1
  members : ∀ n, ∀ e ∈ t.table n, ∀ x ∈ e.2, t.Known x
  runtimeMembers : ∀ n ∈ TableName.ofRuntimes, ∀ e ∈ t.table n, ∀ x ∈ e.2, x ∉ t.projects
  others : ∀ mention ∈ t.otherMentions, t.Known mention.2

theorem unknownAmong_eq_nil_iff {t : Tables} {ms : List (Place × String)} :
    t.unknownAmong ms = [] ↔ ∀ m ∈ ms, t.Known m.2 := by
  simp [unknownAmong]

theorem sharedNames_eq_nil_iff {t : Tables} : t.sharedNames = [] ↔ ∀ x ∈ t.runtimes, x ∉ t.projects := by
  simp [sharedNames, mem_distinct]

theorem misplacedProjects_eq_nil_iff {t : Tables} :
    t.misplacedProjects = [] ↔ ∀ n ∈ TableName.ofRuntimes, ∀ e ∈ t.table n, ∀ x ∈ e.2, x ∉ t.projects := by
  simp [misplacedProjects]

theorem mem_tableMentions {t : Tables} {mention : Place × String} :
    mention ∈ t.tableMentions ↔ ∃ n, ∃ e ∈ t.table n, ∃ x ∈ e.1 :: e.2, (Place.table n e.1, x) = mention := by
  unfold tableMentions
  simp only [List.mem_flatMap, List.mem_map]
  constructor
  · rintro ⟨n, -, e, he, hx⟩
    exact ⟨n, e, he, hx⟩
  · rintro ⟨n, e, he, hx⟩
    exact ⟨n, TableName.mem_all n, e, he, hx⟩

theorem offences_eq_nil_iff (t : Tables) : t.offences = [] ↔ t.Consistent := by
  simp only [offences, List.append_eq_nil_iff, List.map_eq_nil_iff, sharedNames_eq_nil_iff, unknownAmong_eq_nil_iff,
    misplacedProjects_eq_nil_iff]
  constructor
  · rintro ⟨⟨⟨hd, ht⟩, hr⟩, ho⟩
    refine ⟨hd, fun n e he => ?_, fun n e he x hx => ?_, hr, ho⟩
    · exact ht _ (mem_tableMentions.mpr ⟨n, e, he, e.1, List.mem_cons_self, rfl⟩)
    · exact ht _ (mem_tableMentions.mpr ⟨n, e, he, x, List.mem_cons_of_mem _ hx, rfl⟩)
  · intro h
    refine ⟨⟨⟨h.disjoint, fun mention hm => ?_⟩, h.runtimeMembers⟩, h.others⟩
    obtain ⟨n, e, he, x, hx, rfl⟩ := mem_tableMentions.mp hm
    rcases List.mem_cons.mp hx with rfl | hx
    · exact h.keys n e he
    · exact h.members n e he x hx

end Tables

/-! ## Models -/

theorem NameLists.mem_of_get?_toTable {lists : NameLists} {key : String} {s : NameSet}
    (h : lists.toTable.get? key = some s) : ∃ names, (key, names) ∈ lists ∧ s = .ofList names := by
  obtain ⟨e, he, heq⟩ := List.mem_map.mp (Table.mem_of_get?_ofEntries h)
  obtain ⟨rfl, rfl⟩ := Prod.mk.inj heq
  exact ⟨e.2, he, rfl⟩

theorem NameLists.mem_of_mem_members_toTable {lists : NameLists} {key x : String}
    (h : x ∈ lists.toTable.members key) : ∃ names, (key, names) ∈ lists ∧ x ∈ names := by
  obtain ⟨s, hs, hx⟩ := NameTable.mem_members.mp h
  obtain ⟨names, hn, rfl⟩ := mem_of_get?_toTable hs
  exact ⟨names, hn, NameSet.mem_ofList.mp hx⟩

namespace Model

def table (m : Model) : TableName → NameTable
  | .dependencies => m.dependencies
  | .dependents => m.dependents
  | .runtimesBuilt => m.runtimesBuilt
  | .runtimesTested => m.runtimesTested
  | .runtimesReconfigured => m.runtimesReconfigured

/-- the name is a project's or a runtime's -/
def Known (m : Model) (x : String) : Prop :=
  x ∈ m.projects ∨ x ∈ m.runtimes

/-- the names of the model keep the rules -/
structure Consistent (m : Model) : Prop where
  disjoint : ∀ x ∈ m.runtimes, x ∉ m.projects
  keys : ∀ n key s, (m.table n).get? key = some s → m.Known key
  members : ∀ n key, ∀ x ∈ (m.table n).members key, m.Known x
  runtimeMembers : ∀ n ∈ TableName.ofRuntimes, ∀ key, ∀ x ∈ (m.table n).members key, x ∈ m.runtimes
  targets : ∀ key target, m.checkTargets.get? key = some target → m.Known key

theorem table_ofTables (t : Tables) (n : TableName) : (ofTables t).table n = (t.table n).toTable := by
  cases n <;> rfl

theorem known_ofTables {t : Tables} {x : String} : (ofTables t).Known x ↔ t.Known x := by
  simp [Known, Tables.Known, ofTables]

theorem consistent_ofTables {t : Tables} (h : t.Consistent) : (ofTables t).Consistent where
  disjoint x hx := by
    rw [ofTables, NameSet.mem_ofList] at hx ⊢
    exact h.disjoint x hx
  keys n key s hs := by
    rw [table_ofTables] at hs
    obtain ⟨names, hn, -⟩ := NameLists.mem_of_get?_toTable hs
    exact known_ofTables.mpr (h.keys n _ hn)
  members n key x hx := by
    rw [table_ofTables] at hx
    obtain ⟨names, hn, hx⟩ := NameLists.mem_of_mem_members_toTable hx
    exact known_ofTables.mpr (h.members n _ hn x hx)
  runtimeMembers n hr key x hx := by
    rw [table_ofTables] at hx
    obtain ⟨names, hn, hx⟩ := NameLists.mem_of_mem_members_toTable hx
    have hknown : x ∈ t.projects ∨ x ∈ t.runtimes := h.members n _ hn x hx
    exact NameSet.mem_ofList.mpr (hknown.resolve_left (h.runtimeMembers n hr _ hn x hx))
  targets key target ht := by
    have hm : (key, target) ∈ t.checkTargets := Table.mem_of_get?_ofEntries ht
    refine known_ofTables.mpr (h.others (.checkTarget key, key) ?_)
    simp only [Tables.otherMentions, List.mem_append]
    exact Or.inl (Or.inl (Or.inl (Or.inl (Or.inl (List.mem_map.mpr ⟨_, hm, rfl⟩)))))

/-- accepted tables are read off the value and consistent -/
theorem ofValue_eq_ok_iff {v : Value} {m : Model} :
    ofValue v = .ok m ↔
      Tables.shape.issues [] v = [] ∧ (Tables.ofValue v).Consistent ∧ m = ofTables (Tables.ofValue v) := by
  unfold ofValue Tables.read
  cases hs : Tables.shape.issues [] v with
  | cons i is => simp
  | nil =>
    rw [← Tables.offences_eq_nil_iff]
    simp only [check]
    cases ho : (Tables.ofValue v).offences with
    | cons o os => simp
    | nil => simp [eq_comm]

theorem consistent_of_ofValue {v : Value} {m : Model} (h : ofValue v = .ok m) : m.Consistent := by
  obtain ⟨-, hc, rfl⟩ := ofValue_eq_ok_iff.mp h
  exact consistent_ofTables hc

/-! ## The bundled tables -/

theorem ofValue_bundled : ofValue Bundled.tables.toValue = .ok Bundled.model := by
  have hshape : Tables.shape.issues [] Bundled.tables.toValue = [] := by decide +kernel
  have hread : Tables.ofValue Bundled.tables.toValue = Bundled.tables := by decide +kernel
  have hnames : Bundled.tables.offences = [] := by decide +kernel
  refine ofValue_eq_ok_iff.mpr ⟨hshape, ?_, ?_⟩
  · rw [hread]
    exact (Tables.offences_eq_nil_iff _).mp hnames
  · rw [hread]
    rfl

end Model

end ChangeImpact
