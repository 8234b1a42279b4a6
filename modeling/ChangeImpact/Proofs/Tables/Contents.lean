/-
What a model holds, and what makes it acceptable.

A model forgets how its tables were written, and for tables without a key twice what is left is the sets
and maps that one would expect. Whether tables are accepted can be read off the model alone:
`Model.Sound` is the rule for names on a whole model, and it sees neither the order of a list or of a
table's keys nor how often a name is repeated.

Results:
- `Table.ext`, `Model.ext_parts`: tables with the same values under all keys are equal, and models with the same parts.
- `NameLists.get?_toTable`, `NameLists.mem_members_toTable`: what the tables of a model hold.
- `consistent_iff_sound`: tables without a key twice are consistent iff their model is sound.
- `ofValue_eq_ok_iff_sound`: the accepted values, by their shape and the model that they write down.
-/
import ChangeImpact.Proofs.Tables.Acceptance

namespace ChangeImpact

open ChangeImpact.Text

/-! ## Tables -/

namespace Table

variable {α : Type}

theorem nodup_keys (t : Table α) : (Fields.keys t.entries).Nodup := by
  refine List.Pairwise.imp (fun {a b} h => ?_) t.ascending
  rintro rfl
  exact before_irrefl a h

theorem get?_eq_some_iff {t : Table α} {key : String} {value : α} :
    t.get? key = some value ↔ (key, value) ∈ t.entries :=
  Fields.lookup_eq_some_iff_mem t.nodup_keys

/-- tables with the same values under all keys are equal -/
theorem ext {t other : Table α} (h : ∀ key, t.get? key = other.get? key) : t = other := by
  have hperm : t.entries.Perm other.entries := by
    refine (List.perm_ext_iff_of_nodup (.of_map _ t.nodup_keys) (.of_map _ other.nodup_keys)).mpr ?_
    rintro ⟨key, value⟩
    rw [← get?_eq_some_iff, ← get?_eq_some_iff, h]
  have hentries : t.entries = other.entries := by
    have hascending : ∀ t : Table α, t.entries.Pairwise fun e f => Before e.1 f.1 := fun t =>
      List.pairwise_map.mp t.ascending
    refine hperm.eq_of_pairwise ?_ (hascending t) (hascending other)
    intro e f _ _ hef hfe
    exact absurd (before_trans hef hfe) (before_irrefl e.1)
  cases t
  cases other
  simpa using hentries

/-- where no key stands twice, the last value under a key is the only one -/
theorem lastUnder_eq_lookup {entries : Fields α} (h : entries.keys.Nodup) (key : String) :
    lastUnder entries key = entries.lookup key :=
  (Fields.lookup_eq_of_perm entries.reverse_perm.symm h key).symm

end Table

/-- what is done to all values is done to the one that is looked up -/
theorem Fields.lookup_map {α β : Type} (fields : Fields α) (f : α → β) (key : String) :
    (fields.map fun e => (e.1, f e.2)).lookup key = (fields.lookup key).map f := by
  induction fields with
  | nil => rfl
  | cons e rest ih =>
    rw [List.map_cons, List.lookup_cons, List.lookup_cons]
    cases key == e.1 with
    | true => rfl
    | false => exact ih

theorem Table.lastUnder_map {α β : Type} (entries : Fields α) (f : α → β) (key : String) :
    lastUnder (entries.map fun e => (e.1, f e.2)) key = (lastUnder entries key).map f := by
  unfold lastUnder
  rw [← List.map_reverse, Fields.lookup_map]

/-- writing the entries one by one keeps the last value under each key -/
theorem Table.lastUnder_ofEntries {α : Type} (entries : Fields α) (key : String) :
    lastUnder (Fields.ofEntries entries) key = lastUnder entries key :=
  (lastUnder_eq_lookup (Fields.nodup_ofEntries entries) key).trans (Fields.lookup_ofEntries entries key)

namespace NameLists

variable {lists : NameLists} {key x : String}

theorem get?_toTable (h : lists.keys.Nodup) : lists.toTable.get? key = (lists.lookup key).map NameSet.ofList := by
  rw [toTable, Table.get?_ofEntries, Table.lastUnder_map, Table.lastUnder_eq_lookup h]

theorem mem_members_toTable (h : lists.keys.Nodup) :
    x ∈ lists.toTable.members key ↔ ∃ names, (key, names) ∈ lists ∧ x ∈ names := by
  rw [NameTable.mem_members]
  constructor
  · rintro ⟨s, hs, hx⟩
    obtain ⟨names, hn, rfl⟩ := mem_of_get?_toTable hs
    exact ⟨names, hn, NameSet.mem_ofList.mp hx⟩
  · rintro ⟨names, hn, hx⟩
    refine ⟨.ofList names, ?_, NameSet.mem_ofList.mpr hx⟩
    rw [get?_toTable h, (Fields.lookup_eq_some_iff_mem h).mpr hn]
    rfl

end NameLists

/-! ## Other mentions -/

namespace Tables

theorem forall_ruleMentions_iff {rules : List Rule} {start : Nat} {p : String → Prop} :
    (∀ mention ∈ ruleMentions start rules, p mention.2) ↔ ∀ r ∈ rules, p r.project := by
  induction rules generalizing start with
  | nil => simp [ruleMentions]
  | cons r rest ih => rw [ruleMentions, List.forall_mem_cons, List.forall_mem_cons, ih]

/-- what holds of all names outside the tables of name lists, field by field -/
structure ForallOthers (t : Tables) (p : String → Prop) : Prop where
  targets : ∀ e ∈ t.checkTargets, p e.1
  excluded : ∀ platform, ∀ x ∈ t.excluded.get platform, p x
  excludedDependents : ∀ platform, ∀ x ∈ t.excludedDependents.get platform, p x
  rules : ∀ r ∈ t.rules, p r.project
  skipped : ∀ x ∈ t.skipped, p x
  unlisted : ∀ x ∈ t.unlisted, p x
  sentinel : ∀ x, t.sentinel = some x → p x

theorem forall_otherMentions_iff {t : Tables} {p : String → Prop} :
    (∀ mention ∈ t.otherMentions, p mention.2) ↔ t.ForallOthers p := by
  have hplatforms : ∀ platform, platform ∈ Platform.all := by
    intro platform
    cases platform <;> decide
  simp only [otherMentions, List.forall_mem_append, List.forall_mem_map, List.forall_mem_flatMap, forall_ruleMentions_iff,
    Option.mem_toList]
  constructor
  · rintro ⟨⟨⟨⟨⟨ht, he⟩, hr⟩, hs⟩, hu⟩, hc⟩
    exact ⟨ht, fun q => (he q (hplatforms q)).1, fun q => (he q (hplatforms q)).2, hr, hs, hu, hc⟩
  · intro h
    exact ⟨⟨⟨⟨⟨h.targets, fun q _ => ⟨h.excluded q, h.excludedDependents q⟩⟩, h.rules⟩, h.skipped⟩, h.unlisted⟩, h.sentinel⟩

end Tables

/-! ## Models -/

theorem PerPlatform.ext {α : Type} {t other : PerPlatform α} (h : ∀ p, t.get p = other.get p) : t = other := by
  cases t
  cases other
  exact (PerPlatform.mk.injEq ..).mpr ⟨h .linux, h .windows, h .darwin⟩

namespace Model

/-- models with the same sets, the same maps and the same rules are equal -/
theorem ext_parts {m other : Model} (projects : m.projects = other.projects) (runtimes : m.runtimes = other.runtimes)
    (tables : ∀ n key, (m.table n).get? key = (other.table n).get? key)
    (targets : ∀ key, m.checkTargets.get? key = other.checkTargets.get? key)
    (excluded : ∀ p, m.excluded.get p = other.excluded.get p)
    (excludedDependents : ∀ p, m.excludedDependents.get p = other.excludedDependents.get p)
    (rules : m.rules = other.rules) (skipped : m.skipped = other.skipped) (unlisted : m.unlisted = other.unlisted)
    (sentinel : m.sentinel = other.sentinel) : m = other := by
  have htable : ∀ n, m.table n = other.table n := fun n => Table.ext (tables n)
  cases m
  cases other
  exact (Model.mk.injEq ..).mpr ⟨projects, runtimes, htable .dependencies, htable .dependents, htable .runtimesBuilt,
    htable .runtimesTested, htable .runtimesReconfigured, Table.ext targets, PerPlatform.ext excluded,
    PerPlatform.ext excludedDependents, rules, skipped, unlisted, sentinel⟩

/-! ## Sound models -/

/-- every name of the model is one that it may have there -/
structure Sound (m : Model) : Prop extends m.Consistent where
  excluded : ∀ p, ∀ x ∈ m.excluded.get p, m.Known x
  excludedDependents : ∀ p, ∀ x ∈ m.excludedDependents.get p, m.Known x
  rules : ∀ r ∈ m.rules, m.Known r.project
  skipped : ∀ x ∈ m.skipped, m.Known x
  unlisted : ∀ x ∈ m.unlisted, m.Known x
  sentinel : ∀ x, m.sentinel = some x → m.Known x

theorem table_of_rules (m : Model) (rules : List Rule) (n : TableName) :
    ({ m with rules } : Model).table n = m.table n := by
  cases n <;> rfl

/-- of the rules nothing counts but that their projects are known -/
theorem Sound.of_rules {m : Model} (h : m.Sound) {rules : List Rule} (hr : ∀ r ∈ rules, m.Known r.project) :
    ({ m with rules } : Model).Sound where
  disjoint := h.disjoint
  keys n key s hs := h.keys n key s (table_of_rules m rules n ▸ hs)
  members n key x hx := h.members n key x (table_of_rules m rules n ▸ hx)
  runtimeMembers n hn key x hx := h.runtimeMembers n hn key x (table_of_rules m rules n ▸ hx)
  targets := h.targets
  excluded := h.excluded
  excludedDependents := h.excludedDependents
  rules := hr
  skipped := h.skipped
  unlisted := h.unlisted
  sentinel := h.sentinel

theorem sound_ofTables {t : Tables} (h : t.Consistent) : (ofTables t).Sound := by
  have ho := Tables.forall_otherMentions_iff.mp h.others
  refine ⟨consistent_ofTables h, fun p x hx => ?_, fun p x hx => ?_, fun r hr => ?_, fun x hx => ?_, fun x hx => ?_,
    fun x hx => known_ofTables.mpr (ho.sentinel x hx)⟩
  · rw [ofTables, PerPlatform.get_map, NameSet.mem_ofList] at hx
    exact known_ofTables.mpr (ho.excluded p x hx)
  · rw [ofTables, PerPlatform.get_map, NameSet.mem_ofList] at hx
    exact known_ofTables.mpr (ho.excludedDependents p x hx)
  · exact known_ofTables.mpr (ho.rules r hr)
  · exact known_ofTables.mpr (ho.skipped x (NameSet.mem_ofList.mp hx))
  · exact known_ofTables.mpr (ho.unlisted x (NameSet.mem_ofList.mp hx))

theorem consistent_of_sound {t : Tables} (hk : t.DistinctKeys) (h : (ofTables t).Sound) : t.Consistent := by
  have hentry : ∀ n, ∀ e ∈ t.table n, ((ofTables t).table n).get? e.1 = some (.ofList e.2) := by
    intro n e he
    rw [table_ofTables, NameLists.get?_toTable (hk.tables n), (Fields.lookup_eq_some_iff_mem (hk.tables n)).mpr he]
    rfl
  have hmember : ∀ n, ∀ e ∈ t.table n, ∀ x ∈ e.2, x ∈ ((ofTables t).table n).members e.1 := fun n e he x hx =>
    NameTable.mem_members.mpr ⟨_, hentry n e he, NameSet.mem_ofList.mpr hx⟩
  have hdisjoint : ∀ x ∈ t.runtimes, x ∉ t.projects := fun x hr hp =>
    h.disjoint x (NameSet.mem_ofList.mpr hr) (NameSet.mem_ofList.mpr hp)
  refine ⟨hdisjoint, fun n e he => ?_, fun n e he x hx => ?_, fun n hn e he x hx hp => ?_,
    Tables.forall_otherMentions_iff.mpr ⟨fun e he => ?_, fun p x hx => ?_, fun p x hx => ?_, fun r hr => ?_, fun x hx => ?_,
      fun x hx => ?_, fun x hx => known_ofTables.mp (h.sentinel x hx)⟩⟩
  · exact known_ofTables.mp (h.keys n e.1 _ (hentry n e he))
  · exact known_ofTables.mp (h.members n e.1 x (hmember n e he x hx))
  · have hruntime := h.runtimeMembers n hn e.1 x (hmember n e he x hx)
    exact hdisjoint x (NameSet.mem_ofList.mp hruntime) hp
  · refine known_ofTables.mp (h.targets e.1 e.2 ?_)
    change (Table.ofEntries t.checkTargets).get? e.1 = _
    rw [Table.get?_ofEntries, Table.lastUnder_eq_lookup hk.targets, Fields.lookup_eq_some_iff_mem hk.targets]
    exact he
  · refine known_ofTables.mp (h.excluded p x ?_)
    rw [ofTables, PerPlatform.get_map, NameSet.mem_ofList]
    exact hx
  · refine known_ofTables.mp (h.excludedDependents p x ?_)
    rw [ofTables, PerPlatform.get_map, NameSet.mem_ofList]
    exact hx
  · exact known_ofTables.mp (h.rules r hr)
  · exact known_ofTables.mp (h.skipped x (NameSet.mem_ofList.mpr hx))
  · exact known_ofTables.mp (h.unlisted x (NameSet.mem_ofList.mpr hx))

/-- whether tables without a key twice are consistent can be read off their model -/
theorem consistent_iff_sound {t : Tables} (hk : t.DistinctKeys) : t.Consistent ↔ (ofTables t).Sound :=
  ⟨sound_ofTables, consistent_of_sound hk⟩

/-- **The accepted values** are those that have the shape and write down a sound model. -/
theorem ofValue_eq_ok_iff_sound {v : Value} {m : Model} :
    ofValue v = .ok m ↔ Tables.shape.Fits v ∧ ofTables (Tables.ofValue v) = m ∧ m.Sound := by
  rw [ofValue_eq_ok_iff, Shape.issues_eq_nil_iff, consistent_iff_sound (Tables.holdsLast_ofValue v).toDistinctKeys]
  constructor
  · rintro ⟨hv, hs, rfl⟩
    exact ⟨hv, rfl, hs⟩
  · rintro ⟨hv, rfl, hs⟩
    exact ⟨hv, hs, rfl⟩

end Model

end ChangeImpact
