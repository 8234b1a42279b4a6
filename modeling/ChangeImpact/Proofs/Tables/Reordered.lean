/-
Orders and repetitions that do not count.

`Value.Reordered` relates two values that say the same in another order: arrays with the same items, each
any number of times, and objects with the same keys whose entries may change places as long as no two of
their keys are the same name. Both values fit the same shapes, and the tables that they write down have the
same model but for the order of the rules. So if one is accepted the other is.

Results:
- `Shape.Fits.of_reordered`: a reordered value fits what the value fits.
- `Reordered.lookup`, `Reordered.lastEntry`: what stands under a key, as it is written and as a name.
- `ofTables_of_reordered`: the models agree on everything but the order of their rules.
- `ofValue_of_reordered`: a reordered value is accepted, as such a model.
-/
import Mathlib.Data.List.Forall2
import ChangeImpact.Proofs.Tables.Contents

namespace ChangeImpact

/-! ## Entries in the same places -/

/-- entries with the same keys and related values in the same places -/
def EntriesAlike {α : Type} (related : α → α → Prop) : List (String × α) → List (String × α) → Prop :=
  List.Forall₂ fun e f => e.1 = f.1 ∧ related e.2 f.2

namespace EntriesAlike

variable {α : Type} {related : α → α → Prop} {entries others : List (String × α)}

theorem of_columns (hkeys : entries.map (·.1) = others.map (·.1))
    (hvalues : List.Forall₂ related (entries.map (·.2)) (others.map (·.2))) : EntriesAlike related entries others := by
  induction entries generalizing others with
  | nil =>
    obtain rfl := List.map_eq_nil_iff.mp hkeys.symm
    exact .nil
  | cons e rest ih =>
    cases others with
    | nil => contradiction
    | cons f more =>
      obtain ⟨hkey, hkeys⟩ := List.cons.inj hkeys
      obtain ⟨hvalue, hvalues⟩ := List.forall₂_cons.mp hvalues
      exact .cons ⟨hkey, hvalue⟩ (ih hkeys hvalues)

theorem exists_of_mem (h : EntriesAlike related entries others) {f : String × α} (hf : f ∈ others) :
    ∃ e ∈ entries, e.1 = f.1 ∧ related e.2 f.2 := by
  induction h with
  | nil => contradiction
  | cons hef _ ih =>
    rcases List.mem_cons.mp hf with rfl | hf
    · exact ⟨_, List.mem_cons_self, hef⟩
    · obtain ⟨e, he, hef⟩ := ih hf
      exact ⟨e, List.mem_cons_of_mem _ he, hef⟩

/-- under every key both have nothing, or related values -/
theorem lookup (h : EntriesAlike related entries others) (key : String) :
    Option.Rel related (entries.lookup key) (others.lookup key) := by
  induction h with
  | nil => exact .none
  | @cons e f rest more hef _ ih =>
    obtain ⟨hkey, hvalue⟩ := hef
    rw [List.lookup_cons, List.lookup_cons, ← hkey]
    cases key == e.1 with
    | true => exact .some hvalue
    | false => exact ih

theorem reverse (h : EntriesAlike related entries others) : EntriesAlike related entries.reverse others.reverse :=
  List.rel_reverse h

theorem rename (h : EntriesAlike related entries others) (name : String → String) :
    EntriesAlike related (entries.map fun e => (name e.1, e.2)) (others.map fun e => (name e.1, e.2)) := by
  refine List.forall₂_map_left_iff.mpr (List.forall₂_map_right_iff.mpr (List.Forall₂.imp ?_ h))
  rintro e f ⟨hkey, hvalue⟩
  exact ⟨congrArg name hkey, hvalue⟩

end EntriesAlike

/-! ## Reordered values -/

/-- the entries keep their places, or change them where no two keys are the same name -/
def SameOrder (entries others : List (String × Value)) : Prop :=
  entries = others ∨ (entries.map fun e => nameOf e.1).Nodup ∧ entries.Perm others

/-- the second value says the same as the first in another order -/
inductive Value.Reordered : Value → Value → Prop
  | refl (v : Value) : Reordered v v
  | items {items others : List Value} (same : ∀ v, v ∈ items ↔ v ∈ others) : Reordered (.array items) (.array others)
  | entries {entries placed others : List (String × Value)} (keys : entries.map (·.1) = placed.map (·.1))
      (values : List.Forall₂ Reordered (entries.map (·.2)) (placed.map (·.2))) (order : SameOrder placed others) :
      Reordered (.object entries) (.object others)

theorem SameOrder.mem_iff {entries others : List (String × Value)} (h : SameOrder entries others) {e : String × Value} :
    e ∈ entries ↔ e ∈ others := by
  rcases h with rfl | ⟨-, hp⟩
  · exact Iff.rfl
  · exact hp.mem_iff

theorem SameOrder.lookup_eq {entries others : List (String × Value)} (h : SameOrder entries others) (key : String) :
    entries.lookup key = others.lookup key := by
  rcases h with rfl | ⟨hn, hp⟩
  · rfl
  · have hkeys : (Fields.keys entries).Nodup := by
      refine List.Nodup.of_map nameOf ?_
      simpa [Fields.keys, Function.comp_def] using hn
    exact Fields.lookup_eq_of_perm hp hkeys key

/-- the entries under their names -/
def named (entries : List (String × Value)) : Fields Value :=
  entries.map fun e => (nameOf e.1, e.2)

theorem SameOrder.lastUnder_eq {entries others : List (String × Value)} (h : SameOrder entries others) (key : String) :
    Table.lastUnder (named entries) key = Table.lastUnder (named others) key := by
  rcases h with rfl | ⟨hn, hp⟩
  · rfl
  · have hnamed : (named entries).Perm (named others) := hp.map _
    have hkeys : (Fields.keys (named entries)).Nodup := by
      simpa [Fields.keys, named, Function.comp_def] using hn
    have hothers : (Fields.keys (named others)).Nodup := (hnamed.map _).nodup hkeys
    rw [Table.lastUnder_eq_lookup hkeys, Table.lastUnder_eq_lookup hothers]
    exact Fields.lookup_eq_of_perm hnamed hkeys key

namespace Value.Reordered

open Tables

variable {v w : Value}

theorem names {xs ys : List String} (h : ∀ x, x ∈ xs ↔ x ∈ ys) : (namesValue xs).Reordered (namesValue ys) :=
  .items fun v => by simp only [List.mem_map, h]

theorem eq_object {entries : List (String × Value)} (h : Reordered (.object entries) w) : ∃ others, w = .object others := by
  cases h with
  | refl => exact ⟨_, rfl⟩
  | entries => exact ⟨_, rfl⟩

theorem exists_of_mem {entries others : List (String × Value)} (h : Reordered (.object entries) (.object others))
    {f : String × Value} (hf : f ∈ others) : ∃ e ∈ entries, e.1 = f.1 ∧ e.2.Reordered f.2 := by
  cases h with
  | refl => exact ⟨f, hf, rfl, .refl _⟩
  | entries keys values order => exact (EntriesAlike.of_columns keys values).exists_of_mem (order.mem_iff.mpr hf)

theorem rel_refl (found : Option Value) : Option.Rel Reordered found found := by
  cases found with
  | none => exact .none
  | some v => exact .some (.refl v)

theorem map_eq {α : Type} {f : Value → α} (hf : ∀ {v w : Value}, v.Reordered w → f v = f w) {found other : Option Value}
    (h : Option.Rel Reordered found other) : found.map f = other.map f := by
  cases h with
  | none => rfl
  | some hvalue => exact congrArg some (hf hvalue)

/-- under every key both values have nothing, or one the other's reordered value -/
theorem lookup (h : v.Reordered w) (key : String) :
    Option.Rel Reordered ((entriesOf v).lookup key) ((entriesOf w).lookup key) := by
  cases h with
  | refl => exact rel_refl _
  | items => exact .none
  | entries keys values order =>
    rw [entriesOf, entriesOf, ← order.lookup_eq key]
    exact (EntriesAlike.of_columns keys values).lookup key

/-- the same under every name, where the last entry counts -/
theorem lastUnder (h : v.Reordered w) (key : String) :
    Option.Rel Reordered (Table.lastUnder (named (entriesOf v)) key) (Table.lastUnder (named (entriesOf w)) key) := by
  cases h with
  | refl => exact rel_refl _
  | items => exact .none
  | entries keys values order =>
    rw [entriesOf, entriesOf, ← order.lastUnder_eq key]
    exact ((EntriesAlike.of_columns keys values).rename nameOf).reverse.lookup key

end Value.Reordered

/-- a reordered value fits what the value fits -/
theorem Shape.Fits.of_reordered {shape : Shape} {v w : Value} (hv : shape.Fits v) (h : v.Reordered w) : shape.Fits w := by
  induction hv generalizing w with
  | name text =>
    cases h
    exact .name text
  | segment text =>
    cases h
    exact .segment text
  | list hsome heach =>
    cases h with
    | refl => exact .list hsome heach
    | items same =>
      refine .list (fun hne he => ?_) fun v hv => heach v ((same v).mpr hv)
      obtain ⟨v, hv⟩ := List.exists_mem_of_ne_nil _ (hsome hne)
      rw [same, he] at hv
      contradiction
  | table hkeys _ ih =>
    obtain ⟨others, rfl⟩ := h.eq_object
    refine .table (fun f hf => ?_) fun f hf => ?_
    · obtain ⟨e, he, hkey, -⟩ := h.exists_of_mem hf
      exact hkey ▸ hkeys e he
    · obtain ⟨e, he, -, hvalue⟩ := h.exists_of_mem hf
      exact ih e he hvalue
  | @record fields entries hknown hpresent _ ih =>
    obtain ⟨others, rfl⟩ := h.eq_object
    have hlookup : ∀ key, Option.Rel Value.Reordered (entries.lookup key) (others.lookup key) := h.lookup
    refine .record (fun f hf => ?_) (fun f hf hr => ?_) fun f hf w hw => ?_
    · obtain ⟨e, he, hkey, -⟩ := h.exists_of_mem hf
      exact hkey ▸ hknown e he
    · obtain ⟨v, hv⟩ := hpresent f hf hr
      have hrel := hlookup f.1
      rw [hv] at hrel
      generalize others.lookup f.1 = found at hrel ⊢
      cases hrel with
      | @some _ w => exact ⟨w, rfl⟩
    · have hrel := hlookup f.1
      rw [hw] at hrel
      generalize hv : entries.lookup f.1 = found at hrel
      cases hrel with
      | @some v _ hvw => exact ih f hf v hv hvw

/-! ## Reading -/

namespace Value.Reordered

open Tables

variable {v w : Value}

theorem fieldOf (h : v.Reordered w) (key : String) : (fieldOf v key).Reordered (fieldOf w key) := by
  have hrel := h.lookup key
  unfold Tables.fieldOf
  generalize (entriesOf v).lookup key = found at hrel ⊢
  generalize (entriesOf w).lookup key = other at hrel ⊢
  cases hrel with
  | none => exact .refl _
  | some hvalue => exact hvalue

theorem ofList_readNames (h : v.Reordered w) : NameSet.ofList (readNames v) = .ofList (readNames w) := by
  cases h with
  | refl => rfl
  | items same =>
    ext x
    simp only [NameSet.mem_ofList, readNames, itemsOf, List.mem_map, same]
  | entries => rfl

theorem readName_eq (h : v.Reordered w) : readName v = readName w := by
  cases h <;> rfl

theorem readPerPlatform (h : v.Reordered w) (p : Platform) :
    ((readPerPlatform v).map NameSet.ofList).get p = ((Tables.readPerPlatform w).map NameSet.ofList).get p := by
  cases p <;> exact (h.fieldOf _).ofList_readNames

/-- what is seen of the entry under a name is the same, if the reading shows as much of reordered values -/
theorem lastEntry {α β : Type} {readEntry : Value → α} (seen : α → β)
    (hread : ∀ {v w : Value}, v.Reordered w → seen (readEntry v) = seen (readEntry w)) (h : v.Reordered w) (key : String) :
    (lastEntry readEntry v key).map seen = (Tables.lastEntry readEntry w key).map seen := by
  have hnamed : ∀ v : Value, Table.lastUnder ((entriesOf v).map fun e => (nameOf e.1, readEntry e.2)) key =
      (Table.lastUnder (named (entriesOf v)) key).map readEntry := by
    intro v
    rw [← Table.lastUnder_map, named, List.map_map]
    rfl
  unfold Tables.lastEntry
  split
  · rfl
  · rw [hnamed, hnamed, Option.map_map, Option.map_map]
    exact map_eq hread (h.lastUnder key)

end Value.Reordered

/-! ## Models -/

namespace Model

variable {v w : Value}

theorem mem_rules_of_reordered (h : v.Reordered w) (r : Rule) :
    r ∈ (Tables.ofValue v).rules ↔ r ∈ (Tables.ofValue w).rules := by
  have hrules : ∀ {v w : Value}, v.Reordered w →
      (r ∈ (Tables.itemsOf v).map Tables.readRule ↔ r ∈ (Tables.itemsOf w).map Tables.readRule) := by
    intro v w h
    cases h with
    | refl => exact Iff.rfl
    | items same => simp only [Tables.itemsOf, List.mem_map, same]
    | entries => exact Iff.rfl
  exact hrules (h.fieldOf "meta_projects")

/-- the models agree on everything but the order of their rules -/
theorem ofTables_of_reordered (h : v.Reordered w) :
    ofTables (Tables.ofValue w) = { ofTables (Tables.ofValue v) with rules := (Tables.ofValue w).rules } := by
  refine ext_parts (h.fieldOf _).ofList_readNames.symm (h.fieldOf _).ofList_readNames.symm (fun n key => ?_) (fun key => ?_)
    (fun p => ((h.fieldOf _).readPerPlatform p).symm) (fun p => ((h.fieldOf _).readPerPlatform p).symm) rfl
    (h.fieldOf _).ofList_readNames.symm (h.fieldOf _).ofList_readNames.symm ?_
  · have hread : ∀ v : Value, ((ofTables (Tables.ofValue v)).table n).get? key =
        (Tables.lastEntry Tables.readNames (Tables.fieldOf v n.text) key).map NameSet.ofList := by
      intro v
      have hkeys := (Tables.holdsLast_ofValue v).tables n
      rw [table_ofTables, NameLists.get?_toTable hkeys, (Tables.holdsLast_ofValue v).entry]
    have hsame := (h.fieldOf n.text).lastEntry NameSet.ofList Value.Reordered.ofList_readNames key
    have hrules := table_of_rules (ofTables (Tables.ofValue v)) (Tables.ofValue w).rules n
    exact (hread w).trans (hsame.symm.trans ((hread v).symm.trans (congrArg (·.get? key) hrules.symm)))
  · have hread : ∀ v : Value, (ofTables (Tables.ofValue v)).checkTargets.get? key =
        (Tables.lastEntry Tables.readName (Tables.fieldOf v "check_targets") key).map id := by
      intro v
      have hlast := Tables.holdsLast_ofValue v
      rw [Option.map_id, ← hlast.target, ← Table.lastUnder_eq_lookup hlast.targets, ← Table.get?_ofEntries]
      rfl
    rw [hread w]
    exact ((h.fieldOf "check_targets").lastEntry id Value.Reordered.readName_eq key).symm.trans (hread v).symm
  · exact (Value.Reordered.map_eq Value.Reordered.readName_eq (h.lookup "cir_project")).symm

/-- a reordered value is accepted, as a model that differs in the order of its rules at most -/
theorem ofValue_of_reordered {m : Model} (hv : ofValue v = .ok m) (h : v.Reordered w) :
    ∃ rules, (∀ r, r ∈ rules ↔ r ∈ m.rules) ∧ ofValue w = .ok { m with rules } := by
  obtain ⟨hfits, rfl, hsound⟩ := ofValue_eq_ok_iff_sound.mp hv
  have hrules := fun r => (mem_rules_of_reordered h r).symm
  refine ⟨(Tables.ofValue w).rules, hrules, ofValue_eq_ok_iff_sound.mpr ⟨hfits.of_reordered h, ofTables_of_reordered h, ?_⟩⟩
  exact hsound.of_rules fun r hr => hsound.rules r ((hrules r).mp hr)

end Model

end ChangeImpact
