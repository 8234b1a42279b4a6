/-
Tables keyed by names.

A `Table` holds one value for each of its keys, the keys strictly ascending in UTF-16 order, so like
a set it has one form. `Table.ofEntries` collects entries of which the last counts where a key
repeats (`get?_ofEntries`).
-/
import ChangeImpact.Names.Set

namespace ChangeImpact

open ChangeImpact.Text

structure Table (α : Type) where
  entries : List (String × α)
  ascending : (entries.map (·.1)).Pairwise Before

namespace Table

variable {α : Type}

instance : EmptyCollection (Table α) := ⟨⟨[], .nil⟩⟩

instance : Inhabited (Table α) := ⟨∅⟩

instance [DecidableEq α] : DecidableEq (Table α) := fun a b =>
  decidable_of_iff (a.entries = b.entries) (by cases a; cases b; simp)

def get? (t : Table α) (key : String) : Option α :=
  t.entries.lookup key

def size (t : Table α) : Nat :=
  t.entries.length

/-- the last value that stands under a key -/
def lastUnder (entries : List (String × α)) (key : String) : Option α :=
  entries.reverse.lookup key

/-- the keys that have a value, each with it -/
def atKeys (value? : String → Option α) (keys : List String) : List (String × α) :=
  keys.filterMap fun k => (value? k).map (k, ·)

theorem map_fst_atKeys (value? : String → Option α) (keys : List String) :
    (atKeys value? keys).map (·.1) = keys.filter fun k => (value? k).isSome := by
  induction keys with
  | nil => rfl
  | cons k ks ih =>
    rw [atKeys] at ih ⊢
    cases h : value? k <;> simp [h, ih]

theorem lookup_atKeys (value? : String → Option α) (keys : List String) (key : String) :
    (atKeys value? keys).lookup key = if key ∈ keys then value? key else none := by
  induction keys with
  | nil => simp [atKeys]
  | cons k ks ih =>
    rw [atKeys] at ih ⊢
    cases h : value? k with
    | none =>
      simp only [List.filterMap_cons, h, Option.map_none, ih, List.mem_cons]
      by_cases hk : key = k
      · simp [hk, h]
      · simp [hk]
    | some v =>
      simp only [List.filterMap_cons, h, Option.map_some, List.lookup_cons, ih, List.mem_cons]
      by_cases hk : key = k
      · simp [hk, h]
      · simp [hk, beq_false_of_ne hk]

/-- the table of a list of entries, in which a later entry replaces an earlier one with the same key -/
def ofEntries (entries : List (String × α)) : Table α where
  entries := atKeys (lastUnder entries) (NameSet.ofList (entries.map (·.1))).names
  ascending := by
    rw [map_fst_atKeys]
    exact (NameSet.ofList _).ascending.filter _

theorem lookup_eq_none_of_not_mem (entries : List (String × α)) (key : String) (h : key ∉ entries.map (·.1)) :
    entries.lookup key = none := by
  induction entries with
  | nil => rfl
  | cons e es ih =>
    obtain ⟨k, v⟩ := e
    simp only [List.map_cons, List.mem_cons, not_or] at h
    simp [List.lookup_cons, beq_false_of_ne h.1, ih h.2]

theorem get?_ofEntries (entries : List (String × α)) (key : String) :
    (ofEntries entries).get? key = lastUnder entries key := by
  rw [get?, ofEntries, lookup_atKeys]
  split
  · rfl
  · next h =>
    rw [NameSet.mem_names, NameSet.mem_ofList] at h
    refine (lookup_eq_none_of_not_mem _ _ ?_).symm
    simpa using h

theorem mem_of_get?_ofEntries {entries : List (String × α)} {key : String} {value : α}
    (h : (ofEntries entries).get? key = some value) : (key, value) ∈ entries := by
  rw [get?_ofEntries, lastUnder] at h
  obtain ⟨before, after, he, -⟩ := List.lookup_eq_some_iff.mp h
  refine List.mem_reverse.mp ?_
  rw [he]
  simp

end Table

/-- a table from names to sets of names -/
abbrev NameTable := Table NameSet

/-- the names a table holds for a key, none when it has no such key -/
def NameTable.members (t : NameTable) (key : String) : NameSet :=
  (t.get? key).getD ∅

theorem NameTable.mem_members {t : NameTable} {key x : String} :
    x ∈ t.members key ↔ ∃ s, t.get? key = some s ∧ x ∈ s := by
  unfold members
  cases h : t.get? key with
  | none => simp
  | some s => simp

end ChangeImpact
