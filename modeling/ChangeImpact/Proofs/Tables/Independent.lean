/-
Reports about one field do not depend on the others.

A record is reported on field by field, each field looked up under its own name, and after that on the keys that it
has no field for. All that is said about a field has a place at the field or inside it. So the issues of a value are
those of its fields and one about its unknown keys, and who changes one field changes the issues at this field and
nothing else: neither what is reported about another field, nor the order in which it is reported. Only the issue about
the unknown keys shows in which order an object lists its keys.

Results:
- `prefix_of_mem_issues`: what is reported about a value is at its place or inside it.
- `fieldIssues_filter`: the issues of some fields depend on the values of these fields alone.
- `mem_unknownKeys`, `unknownKeys_filter`: the keys without a field.
- `mem_shapeIssues_itself`: what is reported about an object itself.
- `issues_of_other_fields`, `issues_outside`, `issues_at_field`: two objects that differ in one field.
- `issues_independent`: their issues outside the field and at it.
- `issues_reordered`: the unknown keys are reported in the order of each object.
-/
import ChangeImpact.Proofs.Tables.Acceptance

namespace ChangeImpact

/-! ## Places -/

/-- the field of the whole value that an issue is about, none when it is about the value itself -/
def Issue.field? (i : Issue) : Option String :=
  match i.path with
  | .key k :: _ => some k
  | _ => none

theorem Issue.field?_of_prefix {i : Issue} {key : String} (h : [Step.key key] <+: i.path) : i.field? = some key := by
  obtain ⟨rest, hpath⟩ := h
  rw [field?, ← hpath]
  rfl

namespace Shape

theorem path_of_mem_textIssues {path : List Step} {s : String} {i : Issue} (h : i ∈ textIssues path s) : i.path = path := by
  unfold textIssues at h
  split at h
  · rw [List.mem_singleton.mp h]
  · contradiction

theorem path_of_mem_mismatch {shape : Shape} {path : List Step} {received : Kind} {i : Issue}
    (h : i ∈ mismatch shape path received) : i.path = path := by
  rw [List.mem_singleton.mp h]

theorem mem_unknownKeyIssues {known : List String} {path : List Step} {entries : List (String × Value)} {i : Issue} :
    i ∈ unknownKeyIssues known path entries ↔
      ((entries.map (·.1)).filter fun k => k ∉ known) ≠ [] ∧
        i = ⟨path, .unknownKeys ((entries.map (·.1)).filter fun k => k ∉ known)⟩ := by
  unfold unknownKeyIssues
  split
  · next hnone => exact iff_of_false List.not_mem_nil fun h => h.1 hnone
  · next hsome => rw [List.mem_singleton, and_iff_right hsome]

theorem path_of_mem_unknownKeyIssues {known : List String} {path : List Step} {entries : List (String × Value)} {i : Issue}
    (h : i ∈ unknownKeyIssues known path entries) : i.path = path := by
  rw [(mem_unknownKeyIssues.mp h).2]

section Inside

variable {check : List Step → Value → List Issue} (hcheck : ∀ path v, ∀ i ∈ check path v, path <+: i.path)

include hcheck

theorem prefix_of_mem_itemIssues {path : List Step} {start : Nat} {items : List Value} {i : Issue}
    (h : i ∈ itemIssues check path start items) : path <+: i.path := by
  induction items generalizing start with
  | nil => contradiction
  | cons v rest ih =>
    rw [itemIssues] at h
    rcases List.mem_append.mp h with hitem | hrest
    · exact (List.prefix_append _ _).trans (hcheck _ v i hitem)
    · exact ih hrest

theorem prefix_of_mem_entryIssues {path : List Step} {entries : List (String × Value)} {i : Issue}
    (h : i ∈ entryIssues check path entries) : path <+: i.path := by
  induction entries with
  | nil => contradiction
  | cons e rest ih =>
    rw [entryIssues] at h
    rcases List.mem_append.mp h with hentry | hrest
    · rcases List.mem_append.mp hentry with hkey | hvalue
      · rw [path_of_mem_textIssues hkey]
        exact List.prefix_append _ _
      · exact (List.prefix_append _ _).trans (hcheck _ e.2 i hvalue)
    · exact ih hrest

end Inside

mutual

/-- what is reported about a value is at its place or inside it -/
theorem prefix_of_mem_issues : ∀ (shape : Shape) (path : List Step) (v : Value), ∀ i ∈ shape.issues path v, path <+: i.path
  | .name, path, v => by
    intro i hi
    cases v with
    | string s => exact (path_of_mem_textIssues hi).symm ▸ List.prefix_rfl
    | _ => exact (path_of_mem_mismatch hi).symm ▸ List.prefix_rfl
  | .segment, path, v => by
    intro i hi
    cases v with
    | string s => exact (path_of_mem_textIssues hi).symm ▸ List.prefix_rfl
    | _ => exact (path_of_mem_mismatch hi).symm ▸ List.prefix_rfl
  | .list nonempty item, path, v => by
    intro i hi
    cases v with
    | array items =>
      rw [issues] at hi
      rcases List.mem_append.mp hi with hempty | hitems
      · split at hempty
        · exact List.mem_singleton.mp hempty ▸ List.prefix_rfl
        · contradiction
      · exact prefix_of_mem_itemIssues (prefix_of_mem_issues item) hitems
    | _ => exact (path_of_mem_mismatch hi).symm ▸ List.prefix_rfl
  | .table entry, path, v => by
    intro i hi
    cases v with
    | object entries => exact prefix_of_mem_entryIssues (prefix_of_mem_issues entry) hi
    | _ => exact (path_of_mem_mismatch hi).symm ▸ List.prefix_rfl
  | .record fields, path, v => by
    intro i hi
    cases v with
    | object entries =>
      rw [issues] at hi
      rcases List.mem_append.mp hi with hfields | hunknown
      · obtain ⟨f, -, hf⟩ := prefix_of_mem_fieldIssues fields path entries i hfields
        exact (List.prefix_append _ _).trans hf
      · exact (path_of_mem_unknownKeyIssues hunknown).symm ▸ List.prefix_rfl
    | _ => exact (path_of_mem_mismatch hi).symm ▸ List.prefix_rfl

/-- what is reported about the fields of a record is at one of them or inside it -/
theorem prefix_of_mem_fieldIssues : ∀ (fields : List (String × Bool × Shape)) (path : List Step)
    (entries : List (String × Value)), ∀ i ∈ fieldIssues fields path entries,
      ∃ f ∈ fields, path ++ [.key f.1] <+: i.path
  | [], path, entries => nofun
  | (key, required, shape) :: rest, path, entries => by
    intro i hi
    rw [fieldIssues] at hi
    rcases List.mem_append.mp hi with hfield | hrest
    · refine ⟨_, List.mem_cons_self, ?_⟩
      split at hfield
      · exact prefix_of_mem_issues shape _ _ i hfield
      · split at hfield
        · exact (path_of_mem_mismatch hfield).symm ▸ List.prefix_rfl
        · contradiction
    · obtain ⟨f, hf, hprefix⟩ := prefix_of_mem_fieldIssues rest path entries i hrest
      exact ⟨f, List.mem_cons_of_mem _ hf, hprefix⟩

end

theorem unknownKeyIssues_congr {known : List String} {entries others : List (String × Value)}
    (h : (entries.map (·.1)).filter (fun k => k ∉ known) = (others.map (·.1)).filter fun k => k ∉ known) (path : List Step) :
    unknownKeyIssues known path entries = unknownKeyIssues known path others := by
  rw [unknownKeyIssues, unknownKeyIssues, h]

/-! ## Fields -/

variable {fields : List (String × Bool × Shape)} {entries others : List (String × Value)}

theorem field?_of_mem_fieldIssues {i : Issue} (h : i ∈ fieldIssues fields [] entries) : ∃ f ∈ fields, i.field? = some f.1 := by
  obtain ⟨f, hf, hprefix⟩ := prefix_of_mem_fieldIssues fields [] entries i h
  exact ⟨f, hf, Issue.field?_of_prefix hprefix⟩

theorem fieldIssues_cons (f : String × Bool × Shape) (rest : List (String × Bool × Shape)) (path : List Step)
    (entries : List (String × Value)) :
    fieldIssues (f :: rest) path entries = fieldIssues [f] path entries ++ fieldIssues rest path entries := by
  rw [fieldIssues, fieldIssues, fieldIssues, List.append_nil]

/-- what is reported about a field depends on the value under its name alone -/
theorem fieldIssues_singleton {f : String × Bool × Shape} (same : entries.lookup f.1 = others.lookup f.1)
    (path : List Step) : fieldIssues [f] path entries = fieldIssues [f] path others := by
  simp only [fieldIssues, same]

/-- the issues of some fields depend on the values of these fields alone -/
theorem fieldIssues_filter {keep : Option String → Bool}
    (same : ∀ key, keep (some key) = true → entries.lookup key = others.lookup key) :
    (fieldIssues fields [] entries).filter (fun i => keep i.field?) =
      (fieldIssues fields [] others).filter fun i => keep i.field? := by
  induction fields with
  | nil => rfl
  | cons f rest ih =>
    rw [fieldIssues_cons, fieldIssues_cons f rest [] others, List.filter_append, List.filter_append, ih]
    congr 1
    cases hkeep : keep (some f.1) with
    | true => rw [fieldIssues_singleton (same f.1 hkeep)]
    | false =>
      have hnone : ∀ given : List (String × Value), (fieldIssues [f] [] given).filter (fun i => keep i.field?) = [] := by
        intro given
        rw [List.filter_eq_nil_iff]
        intro i hi
        obtain ⟨g, hg, hfield⟩ := field?_of_mem_fieldIssues hi
        rw [hfield, List.mem_singleton.mp hg, hkeep]
        exact Bool.false_ne_true
      rw [hnone, hnone]

end Shape

/-! ## Whole values -/

namespace Tables

/-- the names of the fields -/
def fieldNames : List String :=
  fieldShapes.map (·.1)

/-- the keys that no field is called by, in the order in which an object lists them -/
def unknownKeys (entries : List (String × Value)) : List String :=
  (entries.map (·.1)).filter fun k => k ∉ fieldNames

theorem mem_unknownKeys {entries : List (String × Value)} {key : String} :
    key ∈ unknownKeys entries ↔ key ∉ fieldNames ∧ entries.lookup key ≠ none := by
  have hlookup : key ∈ entries.map (·.1) ↔ entries.lookup key ≠ none := by
    constructor
    · intro hkey hnone
      obtain ⟨e, he, rfl⟩ := List.mem_map.mp hkey
      simpa using List.lookup_eq_none_iff.mp hnone e he
    · intro hsome
      by_contra hkey
      exact hsome (Table.lookup_eq_none_of_not_mem entries key hkey)
  rw [unknownKeys, List.mem_filter, hlookup, decide_eq_true_iff]
  exact and_comm

end Tables

namespace Model

/-- the issues of its shape that a value is refused with -/
def shapeIssues (v : Value) : List Issue :=
  match ofValue v with
  | .error (.shape issues) => issues
  | _ => []

theorem shapeIssues_eq (v : Value) : shapeIssues v = Tables.shape.issues [] v := by
  by_cases hfits : Tables.shape.Fits v
  · rw [(Shape.issues_eq_nil_iff _ _ _).mpr hfits, shapeIssues, ofValue_of_fits hfits]
    cases hcheck : check (Tables.ofValue v) with
    | ok m => rfl
    | error r =>
      by_cases hnone : (Tables.ofValue v).offences = []
      · rw [check_eq_ok_iff.mpr hnone] at hcheck
        contradiction
      · rw [check_of_offences hnone] at hcheck
        rw [← Except.error.inj hcheck]
  · rw [shapeIssues, ofValue_of_not_fits hfits]

variable {entries others : List (String × Value)} {field : String}

theorem shapeIssues_object (entries : List (String × Value)) :
    shapeIssues (.object entries) = Shape.fieldIssues Tables.fieldShapes [] entries ++
      Shape.unknownKeyIssues Tables.fieldNames [] entries :=
  shapeIssues_eq (.object entries)

/-- the issues of some fields and of the object itself depend on the values of these fields and on the unknown keys alone -/
theorem shapeIssues_filter (keep : Option String → Bool)
    (same : ∀ key, keep (some key) = true → entries.lookup key = others.lookup key)
    (known : keep none = true → Tables.unknownKeys entries = Tables.unknownKeys others) :
    (shapeIssues (.object entries)).filter (fun i => keep i.field?) =
      (shapeIssues (.object others)).filter fun i => keep i.field? := by
  rw [shapeIssues_object, shapeIssues_object, List.filter_append, List.filter_append, Shape.fieldIssues_filter same]
  congr 1
  cases hkeep : keep none with
  | true => rw [Shape.unknownKeyIssues_congr (known hkeep)]
  | false =>
    have hnone : ∀ given : List (String × Value),
        (Shape.unknownKeyIssues Tables.fieldNames [] given).filter (fun i => keep i.field?) = [] := by
      intro given
      rw [List.filter_eq_nil_iff]
      intro i hi
      rw [Issue.field?, Shape.path_of_mem_unknownKeyIssues hi, hkeep]
      exact Bool.false_ne_true
    rw [hnone, hnone]

/-- what is reported about an object itself: its unknown keys, if it has any -/
theorem mem_shapeIssues_itself {i : Issue} :
    i ∈ shapeIssues (.object entries) ∧ i.field? = none ↔
      Tables.unknownKeys entries ≠ [] ∧ i = ⟨[], .unknownKeys (Tables.unknownKeys entries)⟩ := by
  rw [shapeIssues_object, List.mem_append]
  constructor
  · rintro ⟨hfields | hunknown, hitself⟩
    · obtain ⟨f, -, hfield⟩ := Shape.field?_of_mem_fieldIssues hfields
      rw [hfield] at hitself
      contradiction
    · exact Shape.mem_unknownKeyIssues.mp hunknown
  · rintro ⟨hsome, rfl⟩
    exact ⟨.inr (Shape.mem_unknownKeyIssues.mpr ⟨hsome, rfl⟩), rfl⟩

section OneField

variable (hfield : field ∈ Tables.fieldNames) (same : ∀ key, key ≠ field → entries.lookup key = others.lookup key)

include same

/-- objects that agree outside one field have the same issues of the other fields -/
theorem issues_of_other_fields :
    (shapeIssues (.object entries)).filter (fun i => i.field? ≠ none ∧ i.field? ≠ some field) =
      (shapeIssues (.object others)).filter fun i => i.field? ≠ none ∧ i.field? ≠ some field := by
  refine shapeIssues_filter (fun f => f ≠ none ∧ f ≠ some field) (fun key hkey => ?_) (by simp)
  apply same
  simpa using hkey

/-- if they also list their unknown keys in the same order then all issues outside the field are the same -/
theorem issues_outside (known : Tables.unknownKeys entries = Tables.unknownKeys others) :
    (shapeIssues (.object entries)).filter (fun i => i.field? ≠ some field) =
      (shapeIssues (.object others)).filter fun i => i.field? ≠ some field := by
  refine shapeIssues_filter (fun f => f ≠ some field) (fun key hkey => ?_) fun _ => known
  apply same
  simpa using hkey

include hfield

/-- objects that agree outside one field have the same unknown keys, in some order -/
theorem mem_unknownKeys_iff_of_same {key : String} :
    key ∈ Tables.unknownKeys entries ↔ key ∈ Tables.unknownKeys others := by
  rw [Tables.mem_unknownKeys, Tables.mem_unknownKeys]
  apply and_congr_right
  intro hunknown
  have hother : key ≠ field := by
    rintro rfl
    exact hunknown hfield
  rw [same key hother]

/-- if one of them has no issue then the issues of the other are at the field -/
theorem issues_at_field (hnone : shapeIssues (.object others) = []) {i : Issue} (hi : i ∈ shapeIssues (.object entries)) :
    i.field? = some field := by
  have hothers : Tables.unknownKeys others = [] := by
    by_contra hsome
    have hitself := mem_shapeIssues_itself.mpr ⟨hsome, rfl⟩
    rw [hnone] at hitself
    exact absurd hitself.1 List.not_mem_nil
  have hentries : Tables.unknownKeys entries = [] := by
    rw [List.eq_nil_iff_forall_not_mem] at hothers ⊢
    exact fun key hkey => hothers key ((mem_unknownKeys_iff_of_same hfield same).mp hkey)
  have hempty : (shapeIssues (.object entries)).filter (fun i => i.field? ≠ some field) = [] := by
    rw [issues_outside same (hentries.trans hothers.symm), hnone]
    rfl
  simpa using List.filter_eq_nil_iff.mp hempty i hi

end OneField

/-- **Issues of different fields are independent.** Take two objects that have the same values under all keys, in whatever order
they list them, but for one key, which is the name of a field and may be absent from either. What is reported about the other
fields is the same, in the same order. What is reported about an object itself is always one issue with its unknown keys, if it
has any: these are the same for both objects, each with its own order, and when the order is the same then so is the whole of
what is reported outside the field, in the same order. If one object has no issue then every issue of the other is at the field
or inside it. -/
theorem issues_independent (entries others : List (String × Value)) (field : String) (hfield : field ∈ Tables.fieldNames)
    (same : ∀ key, key ≠ field → entries.lookup key = others.lookup key) :
    let issues := shapeIssues (.object entries)
    let otherIssues := shapeIssues (.object others)
    (issues.filter (fun i => i.field? ≠ none ∧ i.field? ≠ some field) =
      otherIssues.filter fun i => i.field? ≠ none ∧ i.field? ≠ some field) ∧
    ((∀ i, i ∈ issues ∧ i.field? = none ↔
        Tables.unknownKeys entries ≠ [] ∧ i = ⟨[], .unknownKeys (Tables.unknownKeys entries)⟩) ∧
      (∀ i, i ∈ otherIssues ∧ i.field? = none ↔
        Tables.unknownKeys others ≠ [] ∧ i = ⟨[], .unknownKeys (Tables.unknownKeys others)⟩) ∧
      ∀ key, key ∈ Tables.unknownKeys entries ↔ key ∈ Tables.unknownKeys others) ∧
    (Tables.unknownKeys entries = Tables.unknownKeys others →
      issues.filter (fun i => i.field? ≠ some field) = otherIssues.filter fun i => i.field? ≠ some field) ∧
    (otherIssues = [] → ∀ i ∈ issues, i.field? = some field) := by
  intro issues otherIssues
  refine ⟨issues_of_other_fields same, ⟨fun _ => mem_shapeIssues_itself, fun _ => mem_shapeIssues_itself, ?_⟩, ?_, ?_⟩
  · exact fun _ => mem_unknownKeys_iff_of_same hfield same
  · exact issues_outside same
  · exact fun hnone _ => issues_at_field hfield same hnone

/-- an object with a runtime in place of a list, no projects, an unknown platform and an unknown key -/
def misshapen : List (String × Value) :=
  [("runtimes", .string "libc"), ("owner", .null), ("projects", .array []), ("exclusions", .object [("Mac", .array [])])]

/-- without its runtimes, it is refused with its three other issues -/
theorem issues_independent_misshapen :
    "runtimes" ∈ Tables.fieldNames ∧ (∀ key, key ≠ "runtimes" → misshapen.lookup key = misshapen.tail.lookup key) ∧
    (shapeIssues (.object misshapen)).filter (fun i => i.field? ≠ some "runtimes") =
      shapeIssues (.object misshapen.tail) ∧
    shapeIssues (.object misshapen.tail) =
      [⟨[.key "projects"], .emptyList⟩, ⟨[.key "exclusions"], .unknownKeys ["Mac"]⟩, ⟨[], .unknownKeys ["owner"]⟩] := by
  have hfield : "runtimes" ∈ Tables.fieldNames := by decide
  have hsame : ∀ key, key ≠ "runtimes" → misshapen.lookup key = misshapen.tail.lookup key := by
    intro key hkey
    simp [misshapen, List.lookup_cons, beq_false_of_ne hkey]
  have hknown : Tables.unknownKeys misshapen = Tables.unknownKeys misshapen.tail := by decide +kernel
  obtain ⟨-, -, houtside, -⟩ := issues_independent misshapen misshapen.tail "runtimes" hfield hsame
  have hissues : shapeIssues (.object misshapen.tail) =
      [⟨[.key "projects"], .emptyList⟩, ⟨[.key "exclusions"], .unknownKeys ["Mac"]⟩, ⟨[], .unknownKeys ["owner"]⟩] := by
    decide +kernel
  refine ⟨hfield, hsame, (houtside hknown).trans ?_, hissues⟩
  rw [hissues]
  decide

/-- two objects with the same values under the same keys, in another order: what is reported about the objects themselves is
not the same -/
theorem issues_reordered :
    let entries : List (String × Value) := [("projects", .array [.string "a"]), ("x", .bool true), ("y", .bool true)]
    let others : List (String × Value) := [("projects", .array [.string "a"]), ("y", .bool true), ("x", .bool true)]
    "runtimes" ∈ Tables.fieldNames ∧ (∀ key, key ≠ "runtimes" → entries.lookup key = others.lookup key) ∧
    ((shapeIssues (.object entries)).filter fun i => i.field? ≠ some "runtimes").map Issue.text =
      ["<root>: Unrecognized keys: x, y"] ∧
    ((shapeIssues (.object others)).filter fun i => i.field? ≠ some "runtimes").map Issue.text =
      ["<root>: Unrecognized keys: y, x"] := by
  intro entries others
  have hsame : ∀ key, key ≠ "runtimes" → entries.lookup key = others.lookup key := by
    intro key _
    by_cases hx : key = "x"
    · subst hx
      rfl
    · simp [entries, others, List.lookup_cons, beq_false_of_ne hx]
  exact ⟨by decide, hsame, by decide +kernel, by decide +kernel⟩

end Model

end ChangeImpact
