/-
Tables without exclusions.

What platforms exclude stands in two fields of its own, and a configuration may leave both out. Leaving them
out of one that is accepted gives another one that is accepted, as the model that excludes nothing and is the
same otherwise. A platform that nobody knows excludes nothing either, so on such a platform a model selects
what the other model selects on any platform.

Results:
- `lookup_omitting`, `Fits.omitting`: an object without some of its fields.
- `ofValue_omitting`: the tables are accepted without their exclusions.
- `scope_unexcluded`: the scope of a change on a platform that nobody knows.
-/
import ChangeImpact.Proofs.Tables.Contents
import ChangeImpact.Selection.Scope

namespace ChangeImpact

/-! ## Fields that are left out -/

/-- an object without the fields of some names -/
def Value.omitting (names : List String) : Value → Value
  | .object entries => .object (entries.filter fun e => e.1 ∉ names)
  | v => v

theorem Tables.lookup_omitting (names : List String) (v : Value) (key : String) :
    (entriesOf (v.omitting names)).lookup key = if key ∈ names then none else (entriesOf v).lookup key := by
  cases v with
  | object entries => exact Fields.lookup_filter_keys names entries key
  | _ => simp [Value.omitting, entriesOf]

theorem Tables.fieldOf_omitting (names : List String) (v : Value) (key : String) :
    fieldOf (v.omitting names) key = if key ∈ names then .null else fieldOf v key := by
  rw [fieldOf, lookup_omitting, fieldOf]
  split <;> rfl

/-- fields that a record need not have can be left out of it -/
theorem Shape.Fits.omitting {fields : List (String × Bool × Shape)} {v : Value} (h : (Shape.record fields).Fits v)
    {names : List String} (hoptional : ∀ f ∈ fields, f.1 ∈ names → f.2.1 = false) :
    (Shape.record fields).Fits (v.omitting names) := by
  cases h with
  | record hknown hpresent heach =>
    refine .record (fun e he => hknown e (List.mem_of_mem_filter he)) (fun f hf hrequired => ?_) fun f hf w hw => ?_
    · have hkept : f.1 ∉ names := fun hn => absurd (hoptional f hf hn) (by simp [hrequired])
      rw [Fields.lookup_filter_keys, if_neg hkept]
      exact hpresent f hf hrequired
    · rw [Fields.lookup_filter_keys] at hw
      split at hw
      · contradiction
      · exact heach f hf w hw

namespace Model

/-! ## Models that exclude nothing -/

/-- the model that excludes nothing on any platform -/
def unexcluded (m : Model) : Model :=
  { m with excluded := ⟨∅, ∅, ∅⟩, excludedDependents := ⟨∅, ∅, ∅⟩ }

/-- the fields with the exclusions -/
def exclusionFields : List String :=
  ["exclusions", "dependent_exclusions"]

theorem sound_unexcluded {m : Model} (h : m.Sound) : m.unexcluded.Sound := by
  have hnothing : ∀ (p : Platform) (x : String), x ∉ (⟨∅, ∅, ∅⟩ : PerPlatform NameSet).get p := by
    intro p x
    cases p <;> exact NameSet.not_mem_empty x
  have htable : ∀ n, m.unexcluded.table n = m.table n := by
    intro n
    cases n <;> rfl
  exact
    { h with
      keys := fun n => htable n ▸ h.keys n
      members := fun n => htable n ▸ h.members n
      runtimeMembers := fun n => htable n ▸ h.runtimeMembers n
      excluded := fun p x hx => absurd hx (hnothing p x)
      excludedDependents := fun p x hx => absurd hx (hnothing p x) }

theorem ofTables_omitting (v : Value) :
    ofTables (Tables.ofValue (v.omitting exclusionFields)) = (ofTables (Tables.ofValue v)).unexcluded := by
  have htables : Tables.ofValue (v.omitting exclusionFields) =
      { Tables.ofValue v with excluded := ⟨[], [], []⟩, excludedDependents := ⟨[], [], []⟩ } := by
    have hnothing : Tables.readPerPlatform .null = ⟨[], [], []⟩ := rfl
    simp [Tables.ofValue, Tables.fieldOf_omitting, Tables.lookup_omitting, exclusionFields, hnothing]
  have hempty : NameSet.ofList [] = ∅ := NameSet.ext fun x => by simp
  rw [htables]
  simp only [ofTables, unexcluded, PerPlatform.map, hempty]

/-- an accepted configuration is accepted without its exclusions -/
theorem ofValue_omitting {v : Value} {m : Model} (h : ofValue v = .ok m) :
    ofValue (v.omitting exclusionFields) = .ok m.unexcluded := by
  obtain ⟨hfits, rfl, hsound⟩ := ofValue_eq_ok_iff_sound.mp h
  have hoptional : ∀ f ∈ Tables.fieldShapes, f.1 ∈ exclusionFields → f.2.1 = false := by
    simp [Tables.fieldShapes, exclusionFields]
  exact ofValue_eq_ok_iff_sound.mpr ⟨hfits.omitting hoptional, ofTables_omitting v, sound_unexcluded hsound⟩

/-! ## Platforms that nobody knows -/

theorem onPlatform_of_unknown (t : PerPlatform NameSet) {platform : String} (h : Platform.ofName? platform = none) :
    onPlatform t platform = ∅ := by
  rw [onPlatform, PerPlatform.named, h]
  rfl

theorem onPlatform_nothing (platform : String) : onPlatform ⟨∅, ∅, ∅⟩ platform = ∅ := by
  rw [onPlatform, PerPlatform.named]
  cases Platform.ofName? platform with
  | none => rfl
  | some p => cases p <;> rfl

theorem select_unexcluded (m : Model) {unknown : String} (h : Platform.ofName? unknown = none) (touched : NameSet)
    (platform : String) : m.unexcluded.select touched platform = m.select touched unknown := by
  have hexcluded : onPlatform m.unexcluded.excluded platform = onPlatform m.excluded unknown :=
    (onPlatform_nothing platform).trans (onPlatform_of_unknown _ h).symm
  have hdependents : onPlatform m.unexcluded.excludedDependents platform = onPlatform m.excludedDependents unknown :=
    (onPlatform_nothing platform).trans (onPlatform_of_unknown _ h).symm
  have htested : m.unexcluded.testedProjects touched platform = m.testedProjects touched unknown := by
    rw [testedProjects, testedProjects, hexcluded]
    unfold testedFor
    rw [hdependents]
    rfl
  have hruntimes : ∀ table, m.unexcluded.runtimesOf table touched platform = m.runtimesOf table touched unknown := by
    intro table
    rw [runtimesOf, runtimesOf, hexcluded]
  unfold select
  rw [htested]
  simp only [hruntimes]
  rfl

/-- on a platform that nobody knows a change has the scope that it has on any platform without exclusions -/
theorem scope_unexcluded (m : Model) {unknown : String} (h : Platform.ofName? unknown = none) (files : List String)
    (platform : String) : m.unexcluded.scope files platform = m.scope files unknown := by
  have htouched : m.unexcluded.touched (cleanAll files).names = m.touched (cleanAll files).names := rfl
  have htargets : m.unexcluded.checkTargets = m.checkTargets := rfl
  simp only [scope, htouched, htargets, m.select_unexcluded h]

end Model

end ChangeImpact
