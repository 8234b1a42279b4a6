/-
Models written out and read again.

A model has only names that were trimmed when they were read. Trimming them again does nothing, so tables
that list what an accepted model holds fit the shape and are read back as they stand. They are made of the
same names, so they are accepted too, and as the same model. In what order a set is listed does not
matter, nor in what order a table has its entries.

Results:
- `legible_ofValue`: what is read off a value that fits can be written and read again.
- `fits_toValue`, `ofTables_ofValue_toValue`: legible tables with known names fit, and are read back.
- `Lists`: the tables that list a model, and `lists_listing`: that there are such tables.
- `ofValue_of_lists`: they are accepted as that model.
-/
import ChangeImpact.Proofs.Tables.Contents
import ChangeImpact.Tables.Listing

namespace ChangeImpact

open ChangeImpact.Text

/-- a text that a name can be -/
def IsName (x : String) : Prop :=
  x ≠ "" ∧ nameOf x = x

theorem isName_nameOf {s : String} (h : nameOf s ≠ "") : IsName (nameOf s) :=
  ⟨h, trim_trim s⟩

namespace Tables

/-- the texts of the tables are as they are read -/
structure Legible (t : Tables) : Prop where
  projects : t.projects ≠ []
  names : ∀ x, t.Known x → IsName x
  keys : ∀ n, ∀ e ∈ t.table n, e.1 ≠ "__proto__"
  targets : ∀ e ∈ t.checkTargets, e.1 ≠ "__proto__" ∧ IsName e.2
  rules : ∀ r ∈ t.rules, r.segments ≠ [] ∧ ∀ s ∈ r.segments, s ≠ ""

/-! ## Reading -/

section

variable {v w : Value}

theorem fits_of_mem_itemsOf {nonempty : Bool} {item : Shape} (h : v = .null ∨ (Shape.list nonempty item).Fits v)
    (hw : w ∈ itemsOf v) : item.Fits w := by
  rcases h with rfl | h
  · contradiction
  · cases h with
    | list _ each => exact each w hw

theorem itemsOf_ne_nil {item : Shape} (h : (Shape.list true item).Fits v) : itemsOf v ≠ [] := by
  cases h with
  | list some _ => exact some rfl

theorem fits_of_mem_entriesOf {entry : Shape} (h : v = .null ∨ (Shape.table entry).Fits v) {e : String × Value}
    (he : e ∈ entriesOf v) : entry.Fits e.2 := by
  rcases h with rfl | h
  · contradiction
  · cases h with
    | table _ each => exact each e he

theorem isName_readName (h : Shape.name.Fits v) : IsName (readName v) := by
  cases h with
  | name text => exact isName_nameOf text

theorem isName_of_mem_readNames {nonempty : Bool} (h : v = .null ∨ (Shape.list nonempty .name).Fits v) {x : String}
    (hx : x ∈ readNames v) : IsName x := by
  obtain ⟨item, hitem, rfl⟩ := List.mem_map.mp hx
  exact isName_readName (fits_of_mem_itemsOf h hitem)

theorem textOf_ne_empty (h : Shape.segment.Fits v) : textOf v ≠ "" := by
  cases h with
  | segment text => exact text

theorem of_mem_readTable {α : Type} {readEntry : Value → α} {e : String × α} (he : e ∈ readTable readEntry v) :
    e.1 ≠ "__proto__" ∧ ∃ written ∈ entriesOf v, readEntry written.2 = e.2 := by
  have hlast := (Fields.lookup_eq_some_iff_mem (nodup_readTable readEntry v)).mpr he
  rw [lookup_readTable, lastEntry] at hlast
  split at hlast
  · contradiction
  · next hproto =>
    obtain ⟨before, after, hsplit, -⟩ := List.lookup_eq_some_iff.mp hlast
    have hmem : (e.1, e.2) ∈ (entriesOf v).map fun e => (nameOf e.1, readEntry e.2) := by
      rw [← List.mem_reverse, hsplit]
      simp
    obtain ⟨written, hwritten, heq⟩ := List.mem_map.mp hmem
    exact ⟨hproto, written, hwritten, (Prod.mk.inj heq).2⟩

/-- a required field has its shape -/
theorem fits_required {fields : List (String × Bool × Shape)} {key : String} {s : Shape} (h : (Shape.record fields).Fits v)
    (hf : (key, true, s) ∈ fields) : s.Fits (fieldOf v key) := by
  cases h with
  | record _ hpresent heach =>
    obtain ⟨w, hw⟩ := hpresent _ hf rfl
    rw [fieldOf, entriesOf, hw]
    exact heach _ hf w hw

/-- any other field may be left out -/
theorem fits_optional {fields : List (String × Bool × Shape)} {key : String} {s : Shape}
    (h : (Shape.record fields).Fits v) (hf : (key, false, s) ∈ fields) :
    fieldOf v key = .null ∨ s.Fits (fieldOf v key) := by
  cases h with
  | @record _ entries _ _ heach =>
    rw [fieldOf, entriesOf]
    cases hw : entries.lookup key with
    | none => exact .inl rfl
    | some w => exact .inr (heach _ hf w hw)

theorem of_fits_rule (h : ruleShape.Fits v) : (readRule v).segments ≠ [] ∧ ∀ s ∈ (readRule v).segments, s ≠ "" := by
  have hpath : (Shape.list true .segment).Fits (fieldOf v "path") := fits_required h (by simp)
  refine ⟨fun hnil => itemsOf_ne_nil hpath (List.map_eq_nil_iff.mp hnil), fun s hs => ?_⟩
  obtain ⟨item, hitem, rfl⟩ := List.mem_map.mp hs
  exact textOf_ne_empty (fits_of_mem_itemsOf (.inr hpath) hitem)

/-- what is read off a value that fits can be written and read again -/
theorem legible_ofValue (h : shape.Fits v) : (ofValue v).Legible := by
  have hprojects : (Shape.list true .name).Fits (fieldOf v "projects") := fits_required h (by simp [fieldShapes])
  have hruntimes : fieldOf v "runtimes" = .null ∨ namesShape.Fits (fieldOf v "runtimes") :=
    fits_optional h (by simp [fieldShapes])
  have htargets : fieldOf v "check_targets" = .null ∨ (Shape.table .name).Fits (fieldOf v "check_targets") :=
    fits_optional h (by simp [fieldShapes])
  have hrules : fieldOf v "meta_projects" = .null ∨ (Shape.list false ruleShape).Fits (fieldOf v "meta_projects") :=
    fits_optional h (by simp [fieldShapes])
  refine ⟨fun hnil => itemsOf_ne_nil hprojects (List.map_eq_nil_iff.mp hnil), fun x hx => ?_, fun n e he => ?_,
    fun e he => ?_, fun r hr => ?_⟩
  · rcases hx with hx | hx
    · exact isName_of_mem_readNames (.inr hprojects) hx
    · exact isName_of_mem_readNames hruntimes hx
  · rw [table_ofValue] at he
    exact (of_mem_readTable he).1
  · obtain ⟨hkey, written, hwritten, heq⟩ := of_mem_readTable he
    exact ⟨hkey, heq ▸ isName_readName (fits_of_mem_entriesOf htargets hwritten)⟩
  · obtain ⟨item, hitem, rfl⟩ := List.mem_map.mp hr
    exact of_fits_rule (fits_of_mem_itemsOf hrules hitem)

end

/-! ## Writing -/

/-- a record fits if each of its entries has the shape of a field of that name, and all required fields are there -/
theorem fits_record {fields : List (String × Bool × Shape)} {entries : List (String × Value)}
    (hkeys : (fields.map (·.1)).Nodup)
    (hentries : ∀ e ∈ entries, ∃ required s, s.Fits e.2 ∧ (e.1, required, s) ∈ fields)
    (hpresent : ∀ f ∈ fields, f.2.1 = true → ∃ v, entries.lookup f.1 = some v) :
    (Shape.record fields).Fits (.object entries) := by
  refine .record (fun e he => ?_) hpresent fun f hf v hv => ?_
  · obtain ⟨required, s, -, hf⟩ := hentries e he
    exact List.mem_map.mpr ⟨_, hf, rfl⟩
  · obtain ⟨before, after, rfl, -⟩ := List.lookup_eq_some_iff.mp hv
    obtain ⟨required, s, hfits, hg⟩ := hentries (f.1, v) (by simp)
    have hsame : (f.1, required, s) = f := List.inj_on_of_nodup_map hkeys hg hf rfl
    rw [← hsame]
    exact hfits

theorem fits_name {x : String} (h : IsName x) : Shape.name.Fits (.string x) := by
  refine .name ?_
  rw [h.2]
  exact h.1

theorem fits_namesValue {names : List String} (h : ∀ x ∈ names, IsName x) {nonempty : Bool}
    (hsome : nonempty = true → names ≠ []) : (Shape.list nonempty .name).Fits (namesValue names) := by
  refine .list (fun hn => ?_) (List.forall_mem_map.mpr fun x hx => fits_name (h x hx))
  simpa using hsome hn

theorem fits_tableValue {α : Type} {entry : Shape} {written : α → Value} {entries : Fields α}
    (hkeys : ∀ e ∈ entries, IsName e.1) (hvalues : ∀ e ∈ entries, entry.Fits (written e.2)) :
    (Shape.table entry).Fits (.object (entries.map fun e => (e.1, written e.2))) := by
  refine .table (List.forall_mem_map.mpr fun e he => ?_) (List.forall_mem_map.mpr hvalues)
  rw [(hkeys e he).2]
  exact (hkeys e he).1

theorem fits_ruleValue {r : Rule} (hs : r.segments ≠ [] ∧ ∀ s ∈ r.segments, s ≠ "") (hp : IsName r.project) :
    ruleShape.Fits r.toValue := by
  have hpath : (Shape.list true .segment).Fits (namesValue r.segments) :=
    .list (fun _ => by simpa using hs.1) (List.forall_mem_map.mpr fun s hm => .segment (hs.2 s hm))
  refine fits_record (by decide) ?_ (by simp [List.lookup_cons])
  simp only [List.forall_mem_cons]
  exact ⟨⟨true, _, hpath, by simp⟩, ⟨true, _, fits_name hp, by simp⟩, by simp⟩

section

variable {t : Tables} (hl : t.Legible) (hc : t.Consistent)
include hl

theorem fits_knownNames {names : List String} (h : ∀ x ∈ names, t.Known x) : namesShape.Fits (namesValue names) :=
  fits_namesValue (fun x hx => hl.names x (h x hx)) nofun

theorem fits_perPlatformValue {q : PerPlatform (List String)} (h : ∀ p, ∀ x ∈ q.get p, t.Known x) :
    perPlatformShape.Fits (perPlatformValue q) := by
  refine fits_record (by decide) (List.forall_mem_map.mpr fun p hp => ?_) (by simp)
  exact ⟨false, _, fits_knownNames hl (h p), List.mem_map_of_mem hp⟩

include hc

theorem fits_nameListsValue (n : TableName) : nameListsShape.Fits (nameListsValue (t.table n)) :=
  fits_tableValue (fun e he => hl.names _ (hc.keys n e he)) fun e he => fits_knownNames hl (hc.members n e he)

/-- legible tables with known names fit the shape -/
theorem fits_toValue : shape.Fits t.toValue := by
  have ho := forall_otherMentions_iff.mp hc.others
  have hprojects : (Shape.list true .name).Fits (namesValue t.projects) :=
    fits_namesValue (fun x hx => hl.names x (.inl hx)) fun _ => hl.projects
  have hruntimes : namesShape.Fits (namesValue t.runtimes) := fits_knownNames hl fun x hx => .inr hx
  have hlists := fits_nameListsValue hl hc
  have htargets : (Shape.table .name).Fits (.object (t.checkTargets.map fun e => (e.1, .string e.2))) :=
    fits_tableValue (fun e he => hl.names _ (ho.targets e he)) fun e he => fits_name (hl.targets e he).2
  have hrules : (Shape.list false ruleShape).Fits (.array (t.rules.map Rule.toValue)) :=
    .list nofun (List.forall_mem_map.mpr fun r hr => fits_ruleValue (hl.rules r hr) (hl.names _ (ho.rules r hr)))
  refine fits_record (by decide) ?_ ?_
  · simp only [List.forall_mem_append, List.forall_mem_cons, List.forall_mem_map]
    refine ⟨⟨⟨true, _, hprojects, ?_⟩, ⟨false, _, hruntimes, ?_⟩, ⟨false, _, hlists .dependencies, ?_⟩,
      ⟨false, _, hlists .dependents, ?_⟩, ⟨false, _, hlists .runtimesBuilt, ?_⟩, ⟨false, _, hlists .runtimesTested, ?_⟩,
      ⟨false, _, hlists .runtimesReconfigured, ?_⟩, ⟨false, _, htargets, ?_⟩,
      ⟨false, _, fits_perPlatformValue hl ho.excluded, ?_⟩, ⟨false, _, fits_perPlatformValue hl ho.excludedDependents, ?_⟩,
      ⟨false, _, hrules, ?_⟩, ⟨false, _, fits_knownNames hl ho.skipped, ?_⟩, ⟨false, _, fits_knownNames hl ho.unlisted, ?_⟩,
      nofun⟩, fun x hx => ⟨false, _, fits_name (hl.names x (ho.sentinel x (Option.mem_toList.mp hx))), ?_⟩⟩
    all_goals simp [fieldShapes]
  · simp [fieldShapes]

end

/-! ## Reading what was written -/

theorem readNames_namesValue {names : List String} (h : ∀ x ∈ names, IsName x) : readNames (namesValue names) = names := by
  unfold readNames namesValue itemsOf
  rw [List.map_map]
  exact (List.map_congr_left fun x hx => (h x hx).2).trans (List.map_id _)

theorem readTable_written {α : Type} {readEntry : Value → α} {written : α → Value} {entries : Fields α}
    (hread : ∀ e ∈ entries, readEntry (written e.2) = e.2) (hkeys : ∀ e ∈ entries, nameOf e.1 = e.1 ∧ e.1 ≠ "__proto__") :
    readTable readEntry (.object (entries.map fun e => (e.1, written e.2))) = Fields.ofEntries entries := by
  have hsame : (entries.map fun e => (e.1, written e.2)).map (fun e => (nameOf e.1, readEntry e.2)) = entries := by
    rw [List.map_map]
    refine (List.map_congr_left fun e he => ?_).trans (List.map_id _)
    exact Prod.ext (hkeys e he).1 (hread e he)
  have hkept : (entries.filter fun e => e.1 ≠ "__proto__") = entries :=
    List.filter_eq_self.mpr fun e he => decide_eq_true (hkeys e he).2
  rw [readTable, entriesOf, hsame, hkept]

theorem get_readPerPlatform {q : PerPlatform (List String)} (h : ∀ p, ∀ x ∈ q.get p, IsName x) (p : Platform) :
    (readPerPlatform (perPlatformValue q)).get p = q.get p := by
  cases p
  · exact readNames_namesValue (h .linux)
  · exact readNames_namesValue (h .windows)
  · exact readNames_namesValue (h .darwin)

theorem readRule_toValue {r : Rule} (h : nameOf r.project = r.project) : readRule r.toValue = r := by
  have hsegments : (r.segments.map Value.string).map textOf = r.segments := by
    rw [List.map_map]
    exact List.map_id _
  exact (Rule.mk.injEq ..).mpr ⟨hsegments, h⟩

section

variable {t : Tables} (hl : t.Legible) (hc : t.Consistent)
include hl hc

theorem table_ofValue_toValue (n : TableName) : (ofValue t.toValue).table n = Fields.ofEntries (t.table n) := by
  have hread : readTable readNames (nameListsValue (t.table n)) = Fields.ofEntries (t.table n) :=
    readTable_written (fun e he => readNames_namesValue fun x hx => hl.names x (hc.members n e he x hx))
      fun e he => ⟨(hl.names e.1 (hc.keys n e he)).2, hl.keys n e he⟩
  rw [← hread]
  cases n <;> rfl

theorem checkTargets_ofValue_toValue : (ofValue t.toValue).checkTargets = Fields.ofEntries t.checkTargets := by
  have ho := forall_otherMentions_iff.mp hc.others
  refine @readTable_written _ readName .string _ (fun e he => (hl.targets e he).2.2) fun e he => ?_
  exact ⟨(hl.names e.1 (ho.targets e he)).2, (hl.targets e he).1⟩

theorem rules_ofValue_toValue : (ofValue t.toValue).rules = t.rules := by
  have ho := forall_otherMentions_iff.mp hc.others
  change (t.rules.map Rule.toValue).map readRule = t.rules
  rw [List.map_map]
  exact (List.map_congr_left fun r hr => readRule_toValue (hl.names _ (ho.rules r hr)).2).trans (List.map_id _)

theorem sentinel_ofValue_toValue : (ofValue t.toValue).sentinel = t.sentinel := by
  have ho := forall_otherMentions_iff.mp hc.others
  have hwritten : (entriesOf t.toValue).lookup "cir_project" = t.sentinel.map Value.string := by
    rw [toValue]
    cases t.sentinel <;> rfl
  have hread : (ofValue t.toValue).sentinel = t.sentinel.map nameOf := by
    unfold ofValue
    rw [hwritten, Option.map_map]
    rfl
  rw [hread]
  cases hs : t.sentinel with
  | none => rfl
  | some x => exact congrArg some (hl.names x (ho.sentinel x hs)).2

end

end Tables

/-! ## Models -/

namespace Model

open Tables

/-- what legible tables with known names write down is their own model -/
theorem ofTables_ofValue_toValue {t : Tables} (hl : t.Legible) (hc : t.Consistent) :
    ofTables (Tables.ofValue t.toValue) = ofTables t := by
  have ho := forall_otherMentions_iff.mp hc.others
  have hlist : ∀ {names : List String}, (∀ x ∈ names, t.Known x) →
      NameSet.ofList (readNames (namesValue names)) = .ofList names := by
    intro names h
    rw [readNames_namesValue fun x hx => hl.names x (h x hx)]
  have hplatforms : ∀ {q : PerPlatform (List String)}, (∀ p, ∀ x ∈ q.get p, t.Known x) → ∀ p,
      ((readPerPlatform (perPlatformValue q)).map NameSet.ofList).get p = (q.map NameSet.ofList).get p := by
    intro q h p
    rw [PerPlatform.get_map, PerPlatform.get_map, get_readPerPlatform fun p x hx => hl.names x (h p x hx)]
  refine ext_parts (hlist fun x hx => .inl hx) (hlist fun x hx => .inr hx) (fun n key => ?_) (fun key => ?_)
    (hplatforms ho.excluded) (hplatforms ho.excludedDependents) (rules_ofValue_toValue hl hc) (hlist ho.skipped)
    (hlist ho.unlisted) (sentinel_ofValue_toValue hl hc)
  · rw [table_ofTables, table_ofTables, table_ofValue_toValue hl hc, NameLists.toTable, NameLists.toTable,
      Table.get?_ofEntries, Table.get?_ofEntries, Table.lastUnder_map, Table.lastUnder_map, Table.lastUnder_ofEntries]
  · rw [ofTables, ofTables, checkTargets_ofValue_toValue hl hc, Table.get?_ofEntries, Table.get?_ofEntries,
      Table.lastUnder_ofEntries]

/-- legible tables with known names can be written down and are accepted as their own model -/
theorem ofValue_toValue {t : Tables} (hl : t.Legible) (hc : t.Consistent) : ofValue t.toValue = .ok (ofTables t) := by
  have hmodel := ofTables_ofValue_toValue hl hc
  exact ofValue_eq_ok_iff_sound.mpr ⟨fits_toValue hl hc, hmodel, sound_ofTables hc⟩

/-- the rules of an accepted value have a segment, and none that is empty -/
theorem segments_of_ofValue {v : Value} {m : Model} (h : ofValue v = .ok m) {r : Rule} (hr : r ∈ m.rules) :
    r.segments ≠ [] ∧ ∀ s ∈ r.segments, s ≠ "" := by
  obtain ⟨hfits, rfl, -⟩ := ofValue_eq_ok_iff_sound.mp h
  exact (Tables.legible_ofValue hfits).rules r hr

end Model

/-! ## Tables that list a model -/

/-- the tables list what a model holds: the members of its sets in any order, the entries of its tables in any order, and
its rules in their order -/
structure Tables.Lists (t : Tables) (m : Model) : Prop extends t.DistinctKeys where
  projects : ∀ x, x ∈ t.projects ↔ x ∈ m.projects
  runtimes : ∀ x, x ∈ t.runtimes ↔ x ∈ m.runtimes
  entries : ∀ n key s, (m.table n).get? key = some s ↔ ∃ names, (key, names) ∈ t.table n ∧ ∀ x, x ∈ names ↔ x ∈ s
  checkTargets : ∀ key target, m.checkTargets.get? key = some target ↔ (key, target) ∈ t.checkTargets
  excluded : ∀ p x, x ∈ t.excluded.get p ↔ x ∈ m.excluded.get p
  excludedDependents : ∀ p x, x ∈ t.excludedDependents.get p ↔ x ∈ m.excludedDependents.get p
  rules : t.rules = m.rules
  skipped : ∀ x, x ∈ t.skipped ↔ x ∈ m.skipped
  unlisted : ∀ x, x ∈ t.unlisted ↔ x ∈ m.unlisted
  sentinel : t.sentinel = m.sentinel

namespace Model

variable {m : Model}

theorem listing_table (m : Model) (n : TableName) : m.listing.table n = (m.table n).lists := by
  cases n <;> rfl

theorem keys_lists (t : NameTable) : Fields.keys t.lists = Fields.keys t.entries := by
  simp [Fields.keys, NameTable.lists, Function.comp_def]

/-- what a model lists is a listing of it -/
theorem lists_listing (m : Model) : m.listing.Lists m where
  tables n := by
    rw [listing_table, keys_lists]
    exact (m.table n).nodup_keys
  targets := m.checkTargets.nodup_keys
  projects _ := NameSet.mem_names
  runtimes _ := NameSet.mem_names
  entries n key s := by
    rw [listing_table, Table.get?_eq_some_iff]
    constructor
    · intro hs
      exact ⟨s.names, List.mem_map.mpr ⟨_, hs, rfl⟩, fun x => NameSet.mem_names⟩
    · rintro ⟨names, hn, hsame⟩
      obtain ⟨e, he, heq⟩ := List.mem_map.mp hn
      obtain ⟨rfl, rfl⟩ := Prod.mk.inj heq
      obtain rfl : e.2 = s := NameSet.ext fun x => NameSet.mem_names.symm.trans (hsame x)
      exact he
  checkTargets _ _ := Table.get?_eq_some_iff
  excluded p x := by
    rw [listing, PerPlatform.get_map]
    exact NameSet.mem_names
  excludedDependents p x := by
    rw [listing, PerPlatform.get_map]
    exact NameSet.mem_names
  rules := rfl
  skipped _ := NameSet.mem_names
  unlisted _ := NameSet.mem_names
  sentinel := rfl

/-- tables that list a model are read as that model -/
theorem ofTables_of_lists {t : Tables} (h : t.Lists m) : ofTables t = m := by
  have hlist : ∀ {names : List String} {s : NameSet}, (∀ x, x ∈ names ↔ x ∈ s) → NameSet.ofList names = s := by
    intro names s hsame
    ext x
    rw [NameSet.mem_ofList, hsame]
  have hplatforms : ∀ {q : PerPlatform (List String)} {r : PerPlatform NameSet}, (∀ p x, x ∈ q.get p ↔ x ∈ r.get p) →
      ∀ p, (q.map NameSet.ofList).get p = r.get p := by
    intro q r hsame p
    rw [PerPlatform.get_map]
    exact hlist (hsame p)
  refine ext_parts (hlist h.projects) (hlist h.runtimes) (fun n key => Option.ext fun s => ?_)
    (fun key => Option.ext fun target => ?_) (hplatforms h.excluded) (hplatforms h.excludedDependents) h.rules
    (hlist h.skipped) (hlist h.unlisted) h.sentinel
  · rw [h.entries, table_ofTables, NameLists.get?_toTable (h.tables n), Option.map_eq_some_iff]
    simp only [Fields.lookup_eq_some_iff_mem (h.tables n)]
    refine exists_congr fun names => and_congr_right fun _ => ?_
    constructor
    · rintro rfl x
      exact NameSet.mem_ofList.symm
    · exact hlist
  · rw [h.checkTargets, ofTables, Table.get?_ofEntries, Table.lastUnder_eq_lookup h.targets,
      Fields.lookup_eq_some_iff_mem h.targets]

/-- tables of the same model have the same texts, but for repetitions -/
theorem legible_of_same {t other : Tables} (hl : t.Legible) (hk : other.DistinctKeys) (hsame : ofTables t = ofTables other) :
    other.Legible := by
  have hprojects : ∀ x, x ∈ t.projects ↔ x ∈ other.projects := by
    intro x
    rw [← NameSet.mem_ofList, ← NameSet.mem_ofList]
    exact iff_of_eq (congrArg (x ∈ ·.projects) hsame)
  refine ⟨fun hnil => ?_, fun x hx => ?_, fun n e he => ?_, fun e he => ?_, ?_⟩
  · obtain ⟨x, hx⟩ := List.exists_mem_of_ne_nil _ hl.projects
    rw [hprojects, hnil] at hx
    contradiction
  · rw [← known_ofTables, ← hsame, known_ofTables] at hx
    exact hl.names x hx
  · have hget : ((ofTables t).table n).get? e.1 = some (.ofList e.2) := by
      rw [hsame, table_ofTables, NameLists.get?_toTable (hk.tables n), (Fields.lookup_eq_some_iff_mem (hk.tables n)).mpr he]
      rfl
    rw [table_ofTables] at hget
    obtain ⟨names, hn, -⟩ := NameLists.mem_of_get?_toTable hget
    exact hl.keys n (e.1, names) hn
  · have hget : (ofTables t).checkTargets.get? e.1 = some e.2 := by
      rw [hsame, ofTables, Table.get?_ofEntries, Table.lastUnder_eq_lookup hk.targets]
      exact (Fields.lookup_eq_some_iff_mem hk.targets).mpr he
    exact hl.targets _ (Table.mem_of_get?_ofEntries hget)
  · have hrules : t.rules = other.rules := congrArg Model.rules hsame
    exact hrules ▸ hl.rules

/-- **A model survives being written out.** The model of an accepted value can be listed, and however it is listed, with its
sets in any order and its tables in any order, what is written down is accepted again, as the same model. -/
theorem ofValue_of_lists {v : Value} (hv : ofValue v = .ok m) :
    m.listing.Lists m ∧ ∀ t : Tables, t.Lists m → ofValue t.toValue = .ok m := by
  obtain ⟨hfits, hmodel, hsound⟩ := ofValue_eq_ok_iff_sound.mp hv
  refine ⟨lists_listing m, fun t ht => ?_⟩
  have hsame : ofTables t = m := ofTables_of_lists ht
  have hl : t.Legible := legible_of_same (Tables.legible_ofValue hfits) ht.toDistinctKeys (hmodel.trans hsame.symm)
  have hc : t.Consistent := consistent_of_sound ht.toDistinctKeys (hsame.symm ▸ hsound)
  rw [ofValue_toValue hl hc, hsame]

/-- a configuration with blank characters around its names, one key in two spellings and one that is not kept -/
def padded : Value :=
  .object
    [("projects", .array [.string " clang", .string "__proto__", .string "clang"]),
     ("runtimes", .array [.string "libcxx "]),
     ("dependencies", .object
       [("clang ", .array []), ("__proto__", .array [.string "clang"]), (" clang", .array [.string " libcxx"])]),
     ("exclusions", .object [("Darwin", .array [.string "libcxx"])]),
     ("cir_project", .string " clang ")]

theorem ofValue_of_lists_padded :
    (Tables.ofValue padded).dependencies = [("clang", ["libcxx"])] ∧
    ∃ m, ofValue padded = .ok m ∧ ofValue m.listing.toValue = .ok m ∧
      ofValue { m.listing with projects := m.listing.projects.reverse }.toValue = .ok m := by
  have hshape : Tables.shape.issues [] padded = [] := by decide +kernel
  have hnames : (Tables.ofValue padded).offences = [] := by decide +kernel
  have haccepted : ofValue padded = .ok (ofTables (Tables.ofValue padded)) :=
    ofValue_eq_ok_iff.mpr ⟨hshape, (Tables.offences_eq_nil_iff _).mp hnames, rfl⟩
  obtain ⟨hlists, hagain⟩ := ofValue_of_lists haccepted
  refine ⟨by decide +kernel, _, haccepted, hagain _ hlists, hagain _ ?_⟩
  refine { hlists with
    tables := fun n => ?_
    projects := fun x => List.mem_reverse.trans (hlists.projects x)
    entries := fun n => ?_ }
  · have hkeys := hlists.tables n
    cases n <;> exact hkeys
  · have hentries := hlists.entries n
    cases n <;> exact hentries

end Model

end ChangeImpact
