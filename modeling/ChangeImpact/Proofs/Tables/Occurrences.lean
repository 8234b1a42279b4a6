/-
Every offence counts as often as it occurs.

`Tables.occurrences` says place by place how often the tables commit an offence: a mention of an
unknown name counts each time that its place has the name, a project in a list of runtimes each time
that the list has it, and a name that is both a project and a runtime once. `Tables.offences` walks
the same tables field by field and makes a list.

Results:
- `count_tableMentions`, `count_otherMentions`: the walk meets every mention as often as its place has it.
- `count_offences`: the list has every offence as often as it occurs, when no table has a key twice.
-/
import Mathlib.Data.List.Count
import Mathlib.Data.List.Nodup
import ChangeImpact.Proofs.Tables.Consistent

namespace ChangeImpact

/-! ## Occurrences by place -/

namespace Tables

/-- how often a place has a name; a key counts as one of the names that stand under it -/
def mentioned (t : Tables) : Place → String → Nat
  | .table n key, x => ((t.table n).lookup key).elim 0 fun names => (key :: names).count x
  | .checkTarget key, x => if key = x ∧ x ∈ t.checkTargets.keys then 1 else 0
  | .excluded p, x => (t.excluded.get p).count x
  | .excludedDependents p, x => (t.excludedDependents.get p).count x
  | .rule i, x => if t.rules[i]?.map Rule.project = some x then 1 else 0
  | .skipped, x => t.skipped.count x
  | .unlisted, x => t.unlisted.count x
  | .sentinel, x => if t.sentinel = some x then 1 else 0

/-- how often the tables commit an offence -/
def occurrences (t : Tables) : Offence → Nat
  | .both x => if x ∈ t.projects ∧ x ∈ t.runtimes then 1 else 0
  | .unknown place x => if t.Known x then 0 else t.mentioned place x
  | .notRuntime n key x =>
    if n ∈ TableName.ofRuntimes ∧ x ∈ t.projects then ((t.table n).lookup key).elim 0 fun names => names.count x else 0

/-- no table has a key twice -/
structure DistinctKeys (t : Tables) : Prop where
  tables : ∀ n, (t.table n).keys.Nodup
  targets : t.checkTargets.keys.Nodup

end Tables

/-! ## Counting in the pieces of the walk -/

theorem count_map_pair (place place' : Place) (names : List String) (x : String) :
    (names.map fun y => (place, y)).count (place', x) = if place = place' then names.count x else 0 := by
  split
  · next h =>
    subst h
    exact List.count_map_of_injective names _ (fun _ _ he => (Prod.mk.inj he).2) x
  · next h =>
    refine List.count_eq_zero.mpr fun hm => ?_
    obtain ⟨y, -, he⟩ := List.mem_map.mp hm
    exact h (Prod.mk.inj he).1

/-- the walk over entries whose keys are distinct meets under each key the names of its one entry -/
theorem count_flatMap_entries {β : Type} [BEq β] [LawfulBEq β] (lists : NameLists) (h : lists.keys.Nodup)
    (f : String × List String → List β) (b : β) (key : String) (hf : ∀ e ∈ lists, e.1 ≠ key → (f e).count b = 0) :
    (lists.flatMap f).count b = (lists.lookup key).elim 0 fun names => (f (key, names)).count b := by
  induction lists with
  | nil => simp
  | cons e rest ih =>
    obtain ⟨k, names⟩ := e
    have hn : k ∉ rest.map (·.1) ∧ (rest.map (·.1)).Nodup := List.nodup_cons.mp h
    have ih := ih hn.2 fun e he => hf e (List.mem_cons_of_mem _ he)
    rw [List.flatMap_cons, List.count_append, ih, List.lookup_cons]
    by_cases hk : key = k
    · subst hk
      have hrest : rest.lookup key = none := Table.lookup_eq_none_of_not_mem rest key hn.1
      simp [hrest]
    · have hz : (f (k, names)).count b = 0 := hf _ List.mem_cons_self fun he => hk he.symm
      simp [beq_false_of_ne hk, hz]

theorem count_map_checkTargets (targets : Fields String) (h : targets.keys.Nodup) (place : Place) (x : String) :
    (targets.map fun e => (Place.checkTarget e.1, e.1)).count (place, x) =
      if place = .checkTarget x ∧ x ∈ targets.keys then 1 else 0 := by
  have hmap : (targets.map fun e => (Place.checkTarget e.1, e.1)) =
      targets.keys.map fun k => (Place.checkTarget k, k) := by
    simp [Fields.keys]
  have hinj : Function.Injective fun k : String => (Place.checkTarget k, k) := fun _ _ he => (Prod.mk.inj he).2
  rw [hmap, (List.Nodup.map hinj h).count]
  simp only [List.mem_map, Prod.mk.injEq]
  refine if_congr ⟨?_, ?_⟩ rfl rfl
  · rintro ⟨k, hk, rfl, rfl⟩
    exact ⟨rfl, hk⟩
  · rintro ⟨rfl, hx⟩
    exact ⟨x, hx, rfl, rfl⟩

namespace Tables

theorem count_ruleMentions_of_ne {place : Place} {start : Nat} (h : ∀ i, start ≤ i → place ≠ .rule i)
    (rules : List Rule) (x : String) : (ruleMentions start rules).count (place, x) = 0 := by
  induction rules generalizing start with
  | nil => rfl
  | cons r rest ih =>
    rw [ruleMentions, List.count_cons_of_ne, ih fun i hi => h i (Nat.le_of_succ_le hi)]
    intro he
    exact h start (Nat.le_refl _) (Prod.mk.inj he).1.symm

theorem count_ruleMentions (start : Nat) (rules : List Rule) (i : Nat) (x : String) :
    (ruleMentions start rules).count (.rule (start + i), x) = if rules[i]?.map Rule.project = some x then 1 else 0 := by
  induction rules generalizing start i with
  | nil => simp [ruleMentions]
  | cons r rest ih =>
    rw [ruleMentions, List.count_cons]
    cases i with
    | zero =>
      have hrest : (ruleMentions (start + 1) rest).count (.rule (start + 0), x) = 0 := by
        refine count_ruleMentions_of_ne (fun j hj he => ?_) rest x
        have := Place.rule.inj he
        omega
      rw [hrest]
      simp
    | succ i =>
      have hi : start + (i + 1) = start + 1 + i := by omega
      have hne : start ≠ start + 1 + i := by omega
      rw [hi, ih]
      simp [hne]

/-- one table of name lists meets its keys and members under its own name only -/
theorem count_entries {t : Tables} (h : t.DistinctKeys) (n n' : TableName) (key x : String) :
    ((t.table n').flatMap fun e => (e.1 :: e.2).map fun y => (Place.table n' e.1, y)).count (.table n key, x) =
      if n' = n then t.mentioned (.table n key) x else 0 := by
  rw [count_flatMap_entries _ (h.tables n') _ _ key fun e _ hne => ?_]
  · simp only [count_map_pair, Place.table.injEq, and_true]
    split
    · next hn =>
      subst hn
      rfl
    · cases (t.table n').lookup key <;> rfl
  · rw [count_map_pair, if_neg]
    intro he
    exact hne (Place.table.inj he).2

theorem count_tableMentions {t : Tables} (h : t.DistinctKeys) (n : TableName) (key x : String) :
    t.tableMentions.count (.table n key, x) = t.mentioned (.table n key) x := by
  simp only [tableMentions, TableName.all, List.flatMap_cons, List.flatMap_nil, List.count_append, count_entries h]
  cases n <;> simp

theorem count_tableMentions_of_ne {t : Tables} {place : Place} (hp : ∀ n key, place ≠ .table n key) (x : String) :
    t.tableMentions.count (place, x) = 0 := by
  refine List.count_eq_zero.mpr fun hm => ?_
  obtain ⟨n, e, -, y, -, he⟩ := mem_tableMentions.mp hm
  exact hp n e.1 (Prod.mk.inj he).1.symm

theorem count_otherMentions {t : Tables} (h : t.DistinctKeys) (place : Place) (x : String) :
    t.otherMentions.count (place, x) =
      match place with
      | .table _ _ => 0
      | place => t.mentioned place x := by
  simp only [otherMentions, Platform.all, List.flatMap_cons, List.flatMap_nil, List.count_append, count_map_pair,
    count_map_checkTargets _ h.targets]
  have hother : ∀ place : Place, (∀ i, place ≠ .rule i) → (ruleMentions 0 t.rules).count (place, x) = 0 :=
    fun _ h => count_ruleMentions_of_ne (fun i _ => h i) t.rules x
  cases place with
  | table n key =>
    rw [hother (.table n key) (by simp)]
    simp
  | rule i =>
    have hrules := count_ruleMentions 0 t.rules i x
    rw [Nat.zero_add] at hrules
    simp [hrules, mentioned]
  | checkTarget key =>
    rw [hother (.checkTarget key) (by simp)]
    simp [mentioned]
  | excluded p =>
    rw [hother (.excluded p) (by simp)]
    cases p <;> simp [mentioned]
  | excludedDependents p =>
    rw [hother (.excludedDependents p) (by simp)]
    cases p <;> simp [mentioned]
  | skipped =>
    rw [hother .skipped (by simp)]
    simp [mentioned]
  | unlisted =>
    rw [hother .unlisted (by simp)]
    simp [mentioned]
  | sentinel =>
    rw [hother .sentinel (by simp)]
    cases hs : t.sentinel <;> simp [mentioned, hs, List.count_singleton]

/-- the walk meets every mention as often as its place has it -/
theorem count_mentions {t : Tables} (h : t.DistinctKeys) (place : Place) (x : String) :
    t.tableMentions.count (place, x) + t.otherMentions.count (place, x) = t.mentioned place x := by
  rw [count_otherMentions h]
  cases place with
  | table n key => rw [count_tableMentions h, Nat.add_zero]
  | _ =>
    rw [count_tableMentions_of_ne (by simp), Nat.zero_add]

/-! ## Counting offences -/

theorem nodup_distinct (names : List String) : (distinct names).Nodup := by
  induction names with
  | nil => exact List.nodup_nil
  | cons x rest ih => exact List.nodup_cons.mpr ⟨by simp, ih.filter _⟩

theorem count_shared (t : Tables) (x : String) :
    (t.sharedNames.map Offence.both).count (.both x) = t.occurrences (.both x) := by
  have hn : t.sharedNames.Nodup := (nodup_distinct t.runtimes).filter _
  rw [List.count_map_of_injective _ _ (fun _ _ he => Offence.both.inj he), hn.count, occurrences]
  refine if_congr ?_ rfl rfl
  simp only [sharedNames, List.mem_filter, mem_distinct, decide_eq_true_eq]
  exact and_comm

theorem count_unknownAmong (t : Tables) (ms : List (Place × String)) (place : Place) (x : String) :
    (t.unknownAmong ms).count (.unknown place x) = if t.Known x then 0 else ms.count (place, x) := by
  have hinj : Function.Injective fun m : Place × String => Offence.unknown m.1 m.2 :=
    fun _ _ he => Prod.ext (Offence.unknown.inj he).1 (Offence.unknown.inj he).2
  have hmap : (t.unknownAmong ms).count (.unknown place x) = (ms.filter fun m => ¬ t.Known m.2).count (place, x) :=
    List.count_map_of_injective _ _ hinj (place, x)
  rw [hmap]
  split
  · next hk =>
    refine List.count_eq_zero.mpr fun hm => ?_
    exact of_decide_eq_true (List.mem_filter.mp hm).2 hk
  · next hk => exact List.count_filter (by simpa using hk)

theorem count_unknownAmong_of_ne {t : Tables} {o : Offence} (ho : ∀ place x, o ≠ .unknown place x)
    (ms : List (Place × String)) : (t.unknownAmong ms).count o = 0 := by
  refine List.count_eq_zero.mpr fun hm => ?_
  obtain ⟨m, -, he⟩ := List.mem_map.mp hm
  exact ho m.1 m.2 he.symm

theorem count_map_notRuntime (t : Tables) (n n' : TableName) (key key' : String) (names : List String) (x : String) :
    ((names.filter fun y => y ∈ t.projects).map fun y => Offence.notRuntime n' key' y).count (.notRuntime n key x) =
      if n' = n ∧ key' = key ∧ x ∈ t.projects then names.count x else 0 := by
  split
  · next h =>
    obtain ⟨rfl, rfl, hx⟩ := h
    rw [List.count_map_of_injective _ _ fun _ _ he => (Offence.notRuntime.inj he).2.2]
    exact List.count_filter (by simpa using hx)
  · next h =>
    refine List.count_eq_zero.mpr fun hm => h ?_
    obtain ⟨y, hy, he⟩ := List.mem_map.mp hm
    obtain ⟨hn, hk, rfl⟩ := Offence.notRuntime.inj he
    exact ⟨hn, hk, of_decide_eq_true (List.mem_filter.mp hy).2⟩

theorem count_misplacedProjects {t : Tables} (h : t.DistinctKeys) (n : TableName) (key x : String) :
    t.misplacedProjects.count (.notRuntime n key x) = t.occurrences (.notRuntime n key x) := by
  have hone : ∀ n', ((t.table n').flatMap fun e => (e.2.filter fun y => y ∈ t.projects).map fun y =>
      Offence.notRuntime n' e.1 y).count (.notRuntime n key x) =
      if n' = n ∧ x ∈ t.projects then ((t.table n).lookup key).elim 0 fun names => names.count x else 0 := by
    intro n'
    rw [count_flatMap_entries _ (h.tables n') _ _ key fun e _ hne => ?_]
    · simp only [count_map_notRuntime, true_and]
      split
      · next hn => rw [hn.1]
      · cases (t.table n').lookup key <;> rfl
    · rw [count_map_notRuntime, if_neg fun he => hne he.2.1]
  simp only [misplacedProjects, TableName.ofRuntimes, List.flatMap_cons, List.flatMap_nil, List.count_append, hone,
    occurrences]
  cases n <;> simp

theorem count_misplacedProjects_of_ne {t : Tables} {o : Offence} (ho : ∀ n key x, o ≠ .notRuntime n key x) :
    t.misplacedProjects.count o = 0 := by
  refine List.count_eq_zero.mpr fun hm => ?_
  obtain ⟨n, -, hm⟩ := List.mem_flatMap.mp hm
  obtain ⟨e, -, hm⟩ := List.mem_flatMap.mp hm
  obtain ⟨x, -, he⟩ := List.mem_map.mp hm
  exact ho n e.1 x he.symm

theorem count_shared_of_ne {t : Tables} {o : Offence} (ho : ∀ x, o ≠ .both x) :
    (t.sharedNames.map Offence.both).count o = 0 := by
  refine List.count_eq_zero.mpr fun hm => ?_
  obtain ⟨x, -, he⟩ := List.mem_map.mp hm
  exact ho x he.symm

/-- **Every offence is listed as often as it occurs.** -/
theorem count_offences {t : Tables} (h : t.DistinctKeys) (o : Offence) : t.offences.count o = t.occurrences o := by
  simp only [offences, List.count_append]
  cases o with
  | both x =>
    have hunknown : ∀ ms, (t.unknownAmong ms).count (.both x) = 0 := count_unknownAmong_of_ne (by simp)
    have hmisplaced : t.misplacedProjects.count (.both x) = 0 := count_misplacedProjects_of_ne (by simp)
    rw [count_shared, hunknown, hunknown, hmisplaced]
    rfl
  | unknown place x =>
    have hshared : (t.sharedNames.map Offence.both).count (.unknown place x) = 0 := count_shared_of_ne (by simp)
    have hmisplaced : t.misplacedProjects.count (.unknown place x) = 0 := count_misplacedProjects_of_ne (by simp)
    rw [hshared, hmisplaced, count_unknownAmong, count_unknownAmong, occurrences, ← count_mentions h place x]
    split <;> omega
  | notRuntime n key x =>
    have hshared : (t.sharedNames.map Offence.both).count (.notRuntime n key x) = 0 := count_shared_of_ne (by simp)
    have hunknown : ∀ ms, (t.unknownAmong ms).count (.notRuntime n key x) = 0 := count_unknownAmong_of_ne (by simp)
    rw [hshared, hunknown, hunknown, count_misplacedProjects h]
    omega

end Tables

end ChangeImpact
