/-
Sets of names.

A `NameSet` holds its names strictly ascending in UTF-16 order, so a set has one form: two sets with
the same members are equal (`NameSet.ext`), and listing the members needs no further sorting.
`NameSet.ofList` sorts and drops repetitions; membership after each operation is what the `mem_`
lemmas say.
-/
import ChangeImpact.Text.Units

namespace ChangeImpact

open ChangeImpact.Text

/-- a sorted list without the entries that repeat their predecessor -/
def dropRepeats : List String → List String
  | [] => []
  | [a] => [a]
  | a :: b :: rest => if a = b then dropRepeats (b :: rest) else a :: dropRepeats (b :: rest)

theorem mem_dropRepeats {x : String} {xs : List String} : x ∈ dropRepeats xs ↔ x ∈ xs := by
  induction xs with
  | nil => simp [dropRepeats]
  | cons a rest ih =>
    cases rest with
    | nil => simp [dropRepeats]
    | cons b rest =>
      rw [dropRepeats]
      split
      · next h => rw [ih, h]; simp
      · rw [List.mem_cons, ih, List.mem_cons (l := b :: rest)]

theorem pairwise_dropRepeats {xs : List String} (h : xs.Pairwise fun a b => atMost a b) :
    (dropRepeats xs).Pairwise Before := by
  induction xs with
  | nil => simp [dropRepeats]
  | cons a rest ih =>
    cases rest with
    | nil => simp [dropRepeats]
    | cons b rest =>
      have hp := List.pairwise_cons.mp h
      rw [dropRepeats]
      split
      · exact ih hp.2
      · next hne =>
        refine List.pairwise_cons.mpr ⟨fun x hx => ?_, ih hp.2⟩
        have hab := before_of_atMost_of_ne (hp.1 b (by simp)) hne
        rcases List.mem_cons.mp (mem_dropRepeats.mp hx) with rfl | hx
        · exact hab
        · by_cases hbx : b = x
          · exact hbx ▸ hab
          · exact before_trans hab (before_of_atMost_of_ne ((List.pairwise_cons.mp hp.2).1 x hx) hbx)

/-- a set of names -/
structure NameSet where
  names : List String
  ascending : names.Pairwise Before

namespace NameSet

instance : Membership String NameSet := ⟨fun s x => x ∈ s.names⟩

instance (x : String) (s : NameSet) : Decidable (x ∈ s) :=
  inferInstanceAs (Decidable (x ∈ s.names))

instance : EmptyCollection NameSet := ⟨⟨[], .nil⟩⟩

instance : Inhabited NameSet := ⟨∅⟩

instance : DecidableEq NameSet := fun a b =>
  decidable_of_iff (a.names = b.names) (by cases a; cases b; simp)

def size (s : NameSet) : Nat :=
  s.names.length

/-- the set of the members of a list -/
def ofList (xs : List String) : NameSet where
  names := dropRepeats (xs.mergeSort atMost)
  ascending := pairwise_dropRepeats (List.pairwise_mergeSort atMost_trans atMost_total xs)

instance : Union NameSet := ⟨fun a b => ofList (a.names ++ b.names)⟩

/-- the members that pass a test -/
def filter (s : NameSet) (keep : String → Bool) : NameSet where
  names := s.names.filter keep
  ascending := s.ascending.filter _

/-- the members of the first set that are not in the second -/
def without (s removed : NameSet) : NameSet :=
  s.filter fun x => x ∉ removed

/-- the union of the sets that belong to the members -/
def gather (s : NameSet) (f : String → NameSet) : NameSet :=
  ofList (s.names.flatMap fun x => (f x).names)

instance : HasSubset NameSet := ⟨fun a b => ∀ x, x ∈ a → x ∈ b⟩

@[simp] theorem mem_names {x : String} {s : NameSet} : x ∈ s.names ↔ x ∈ s := Iff.rfl

@[simp] theorem not_mem_empty (x : String) : ¬ x ∈ (∅ : NameSet) := by
  intro h
  cases h

@[simp] theorem mem_ofList {x : String} {xs : List String} : x ∈ ofList xs ↔ x ∈ xs := by
  rw [← mem_names, ofList, mem_dropRepeats, List.mem_mergeSort]

@[simp] theorem mem_union {x : String} {a b : NameSet} : x ∈ a ∪ b ↔ x ∈ a ∨ x ∈ b := by
  change x ∈ ofList (a.names ++ b.names) ↔ _
  simp

@[simp] theorem mem_filter {x : String} {s : NameSet} {keep : String → Bool} :
    x ∈ s.filter keep ↔ x ∈ s ∧ keep x = true := by
  rw [← mem_names, filter, List.mem_filter, mem_names]

@[simp] theorem mem_without {x : String} {s removed : NameSet} : x ∈ s.without removed ↔ x ∈ s ∧ x ∉ removed := by
  simp [without]

@[simp] theorem mem_gather {x : String} {s : NameSet} {f : String → NameSet} :
    x ∈ s.gather f ↔ ∃ y, y ∈ s ∧ x ∈ f y := by
  simp [gather]

theorem nodup (s : NameSet) : s.names.Nodup := by
  refine List.Pairwise.imp (fun {a b} h => ?_) s.ascending
  rintro rfl
  exact before_irrefl a h

/-- sets with the same members are equal -/
@[ext] theorem ext {a b : NameSet} (h : ∀ x, x ∈ a ↔ x ∈ b) : a = b := by
  have hp : a.names.Perm b.names := (List.perm_ext_iff_of_nodup a.nodup b.nodup).mpr h
  have hl : a.names = b.names :=
    hp.eq_of_pairwise (fun x y _ _ hxy hyx => absurd (before_trans hxy hyx) (before_irrefl x)) a.ascending b.ascending
  cases a
  cases b
  simpa using hl

theorem exists_mem_of_ne_empty {s : NameSet} (h : s ≠ ∅) : ∃ x, x ∈ s := by
  obtain ⟨names, ascending⟩ := s
  cases names with
  | nil => exact absurd rfl h
  | cons x rest => exact ⟨x, List.mem_cons_self⟩

/-- listing a set and collecting it again changes nothing -/
@[simp] theorem ofList_names (s : NameSet) : ofList s.names = s := by
  ext x
  simp

end NameSet

end ChangeImpact
