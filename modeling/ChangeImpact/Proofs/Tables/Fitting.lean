/-
Which values have a shape.

`Shape.issues` lists every departure of a value from a shape. `Shape.Fits` says without a list and
without an order when there is none: the value has the type, its texts are not empty, a list that has
to have an item has one, a record has the fields that it must have and no others, and all that is
inside fits in turn.

Results:
- `issues_eq_nil_iff`: a value has no issue iff it fits, for every shape, value and place.
-/
import ChangeImpact.Tables.Shape

namespace ChangeImpact.Shape

inductive Fits : Shape → Value → Prop
  | name {s : String} (text : nameOf s ≠ "") : Fits .name (.string s)
  | segment {s : String} (text : s ≠ "") : Fits .segment (.string s)
  | list {nonempty : Bool} {item : Shape} {items : List Value} (some : nonempty = true → items ≠ [])
      (each : ∀ v ∈ items, Fits item v) : Fits (.list nonempty item) (.array items)
  | table {entry : Shape} {entries : List (String × Value)} (keys : ∀ e ∈ entries, nameOf e.1 ≠ "")
      (each : ∀ e ∈ entries, Fits entry e.2) : Fits (.table entry) (.object entries)
  | record {fields : List (String × Bool × Shape)} {entries : List (String × Value)}
      (known : ∀ e ∈ entries, e.1 ∈ fields.map (·.1))
      (present : ∀ f ∈ fields, f.2.1 = true → ∃ v, entries.lookup f.1 = some v)
      (each : ∀ f ∈ fields, ∀ v, entries.lookup f.1 = some v → Fits f.2.2 v) : Fits (.record fields) (.object entries)

/-! ## The pieces of a report -/

theorem textIssues_eq_nil_iff {path : List Step} {s : String} : textIssues path s = [] ↔ s ≠ "" := by
  unfold textIssues
  by_cases hs : s = ""
  · simp [hs]
  · simp [hs]

theorem itemIssues_eq_nil_iff {check : List Step → Value → List Issue} {p : Value → Prop}
    (hcheck : ∀ path v, check path v = [] ↔ p v) {path : List Step} {start : Nat} {items : List Value} :
    itemIssues check path start items = [] ↔ ∀ v ∈ items, p v := by
  induction items generalizing start with
  | nil => simp [itemIssues]
  | cons v rest ih => simp [itemIssues, hcheck, ih]

theorem entryIssues_eq_nil_iff {check : List Step → Value → List Issue} {p : Value → Prop}
    (hcheck : ∀ path v, check path v = [] ↔ p v) {path : List Step} {entries : List (String × Value)} :
    entryIssues check path entries = [] ↔ (∀ e ∈ entries, nameOf e.1 ≠ "") ∧ ∀ e ∈ entries, p e.2 := by
  induction entries with
  | nil => simp [entryIssues]
  | cons e rest ih =>
    obtain ⟨key, v⟩ := e
    rw [entryIssues, List.append_eq_nil_iff, List.append_eq_nil_iff, textIssues_eq_nil_iff, hcheck, ih,
      List.forall_mem_cons, List.forall_mem_cons]
    constructor
    · rintro ⟨⟨hk, hv⟩, hks, hvs⟩
      exact ⟨⟨hk, hks⟩, hv, hvs⟩
    · rintro ⟨⟨hk, hks⟩, hv, hvs⟩
      exact ⟨⟨hk, hv⟩, hks, hvs⟩

theorem unknownKeyIssues_eq_nil_iff {known : List String} {path : List Step} {entries : List (String × Value)} :
    unknownKeyIssues known path entries = [] ↔ ∀ e ∈ entries, e.1 ∈ known := by
  have hfilter : ((entries.map (·.1)).filter fun k => k ∉ known) = [] ↔ ∀ e ∈ entries, e.1 ∈ known := by simp
  rw [← hfilter]
  unfold unknownKeyIssues
  split
  · next h => exact iff_of_true rfl h
  · next h => exact iff_of_false (List.cons_ne_nil _ _) h

theorem mismatch_ne_nil (shape : Shape) (path : List Step) (received : Kind) : mismatch shape path received ≠ [] := by
  simp [mismatch]

theorem mismatch_eq_nil_iff_fits {shape : Shape} {path : List Step} {v : Value} (h : ¬ shape.Fits v) :
    mismatch shape path v.kind = [] ↔ shape.Fits v :=
  iff_of_false (mismatch_ne_nil _ _ _) h

/-! ## All shapes -/

mutual

/-- **A value without issues is one that fits.** -/
theorem issues_eq_nil_iff : ∀ (shape : Shape) (path : List Step) (v : Value), shape.issues path v = [] ↔ shape.Fits v
  | .name, path, v => by
    cases v with
    | string s =>
      rw [issues, textIssues_eq_nil_iff]
      constructor
      · exact .name
      · intro hv
        cases hv with
        | name h => exact h
    | _ => exact mismatch_eq_nil_iff_fits nofun
  | .segment, path, v => by
    cases v with
    | string s =>
      rw [issues, textIssues_eq_nil_iff]
      constructor
      · exact .segment
      · intro hv
        cases hv with
        | segment h => exact h
    | _ => exact mismatch_eq_nil_iff_fits nofun
  | .list nonempty item, path, v => by
    cases v with
    | array items =>
      have hitems : itemIssues item.issues path 0 items = [] ↔ ∀ v ∈ items, item.Fits v :=
        itemIssues_eq_nil_iff (issues_eq_nil_iff item)
      have hempty : (if nonempty && items.isEmpty then [(⟨path, .emptyList⟩ : Issue)] else []) = [] ↔
          (nonempty = true → items ≠ []) := by
        cases nonempty <;> cases items <;> simp
      rw [issues, List.append_eq_nil_iff, hempty, hitems]
      constructor
      · rintro ⟨h, hi⟩
        exact .list h hi
      · intro hv
        cases hv with
        | list h hi => exact ⟨h, hi⟩
    | _ => exact mismatch_eq_nil_iff_fits nofun
  | .table entry, path, v => by
    cases v with
    | object entries =>
      rw [issues, entryIssues_eq_nil_iff (issues_eq_nil_iff entry)]
      constructor
      · rintro ⟨hk, he⟩
        exact .table hk he
      · intro hv
        cases hv with
        | table hk he => exact ⟨hk, he⟩
    | _ => exact mismatch_eq_nil_iff_fits nofun
  | .record fields, path, v => by
    cases v with
    | object entries =>
      rw [issues, List.append_eq_nil_iff, fieldIssues_eq_nil_iff fields, unknownKeyIssues_eq_nil_iff]
      constructor
      · rintro ⟨hf, hk⟩
        exact .record hk (fun f hm => (hf f hm).1) fun f hm => (hf f hm).2
      · intro hv
        cases hv with
        | record hk hp he => exact ⟨fun f hm => ⟨hp f hm, he f hm⟩, hk⟩
    | _ => exact mismatch_eq_nil_iff_fits nofun

theorem fieldIssues_eq_nil_iff : ∀ (fields : List (String × Bool × Shape)) (path : List Step)
    (entries : List (String × Value)), fieldIssues fields path entries = [] ↔
      ∀ f ∈ fields, (f.2.1 = true → ∃ v, entries.lookup f.1 = some v) ∧
        ∀ v, entries.lookup f.1 = some v → f.2.2.Fits v
  | [], path, entries => by simp [fieldIssues]
  | (key, required, shape) :: rest, path, entries => by
    rw [fieldIssues, List.append_eq_nil_iff, fieldIssues_eq_nil_iff rest, List.forall_mem_cons]
    refine and_congr_left fun _ => ?_
    cases hv : entries.lookup key with
    | none =>
      cases required with
      | false => simp
      | true => simpa using mismatch_ne_nil _ _ _
    | some v =>
      simp only [issues_eq_nil_iff shape]
      constructor
      · intro h
        refine ⟨fun _ => ⟨v, rfl⟩, fun w hw => ?_⟩
        obtain rfl : v = w := Option.some.inj hw
        exact h
      · intro h
        exact h.2 v rfl

end

end ChangeImpact.Shape
