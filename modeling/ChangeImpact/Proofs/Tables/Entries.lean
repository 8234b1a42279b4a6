/-
What a table holds after its entries were written one by one.

Fields are written in turn and then arranged, index keys first. Neither changes what stands under a
key: it is the last value that was written there. Since a table that is read off a value is built
this way from trimmed keys, this says what every table of a configuration holds.

Results:
- `arrange_perm`: arranging only reorders.
- `nodup_ofEntries`, `lookup_ofEntries`: each key stands once, with the last value written under it.
- `ofEntries_ofEntries`: fields that stand as they were written are written the same way again.
- `lookup_readTable`: the same of a table that is read, which never has the key `__proto__`.
-/
import ChangeImpact.Names.Table
import ChangeImpact.Tables.Basic

namespace ChangeImpact

variable {α : Type}

/-! ## The last value under a key -/

namespace Table

theorem lastUnder_cons (e : String × α) (rest : List (String × α)) (key : String) :
    lastUnder (e :: rest) key = (lastUnder rest key).or (if key = e.1 then some e.2 else none) := by
  obtain ⟨k, v⟩ := e
  rw [lastUnder, List.reverse_cons, List.lookup_append, List.lookup_cons]
  by_cases hk : key = k
  · simp [hk, lastUnder]
  · simp [hk, beq_false_of_ne, lastUnder]

theorem lastUnder_eq_none_iff {entries : List (String × α)} {key : String} :
    lastUnder entries key = none ↔ ∀ e ∈ entries, e.1 ≠ key := by
  induction entries with
  | nil => simp [lastUnder]
  | cons e rest ih =>
    rw [lastUnder_cons, Option.or_eq_none_iff, ih, List.forall_mem_cons, and_comm]
    refine and_congr_left fun _ => ?_
    split
    · next heq => exact iff_of_false (Option.some_ne_none _) fun hne => hne heq.symm
    · next hne => exact iff_of_true rfl fun heq => hne heq.symm

end Table

namespace Fields

/-! ## Looking up -/

theorem lookup_eq_some_iff_mem {fields : Fields α} (h : fields.keys.Nodup) {key : String} {value : α} :
    fields.lookup key = some value ↔ (key, value) ∈ fields := by
  induction fields with
  | nil => simp
  | cons f rest ih =>
    obtain ⟨k, v⟩ := f
    have hn : k ∉ rest.map (·.1) ∧ (rest.map (·.1)).Nodup := List.nodup_cons.mp h
    rw [List.lookup_cons, List.mem_cons, Prod.mk.injEq]
    by_cases hk : key = k
    · subst hk
      have hrest : (key, value) ∉ rest := fun hm => hn.1 (List.mem_map.mpr ⟨_, hm, rfl⟩)
      simp [hrest, eq_comm]
    · simp only [beq_false_of_ne hk, hk, false_and, false_or]
      exact ih hn.2

theorem lookup_eq_of_perm {fields others : Fields α} (hp : fields.Perm others) (h : fields.keys.Nodup) (key : String) :
    fields.lookup key = others.lookup key := by
  have ho : others.keys.Nodup := (hp.map _).nodup h
  ext value
  rw [lookup_eq_some_iff_mem h, lookup_eq_some_iff_mem ho, hp.mem_iff]

/-- look-up in what is left without the fields of some names -/
theorem lookup_filter_keys (names : List String) (fields : Fields α) (key : String) :
    (fields.filter fun f => f.1 ∉ names).lookup key = if key ∈ names then none else fields.lookup key := by
  induction fields with
  | nil => simp
  | cons f rest ih =>
    obtain ⟨k, a⟩ := f
    by_cases hk : k ∈ names
    · rw [List.filter_cons_of_neg (by simpa using hk), ih]
      split
      · rfl
      · next hkey =>
        have hne : key ≠ k := fun h => hkey (h ▸ hk)
        simp [List.lookup_cons, beq_false_of_ne hne]
    · rw [List.filter_cons_of_pos (by simpa using hk), List.lookup_cons, List.lookup_cons, ih]
      by_cases hkey : key = k
      · simp [hkey, hk]
      · simp [beq_false_of_ne hkey]

theorem lookup_filter_ne (fields : Fields α) (dropped key : String) :
    (fields.filter fun f => f.1 ≠ dropped).lookup key = if key = dropped then none else fields.lookup key := by
  simpa using lookup_filter_keys [dropped] fields key

/-! ## Writing -/

theorem mem_keys_put {fields : Fields α} {key x : String} {value : α} :
    x ∈ (put fields key value).keys ↔ x = key ∨ x ∈ fields.keys := by
  induction fields with
  | nil => simp [put, keys]
  | cons f rest ih =>
    obtain ⟨k, v⟩ := f
    rw [put]
    split
    · next hk => simp [keys, hk]
    · simp only [keys, List.map_cons, List.mem_cons] at ih ⊢
      rw [ih]
      exact or_left_comm

theorem nodup_put {fields : Fields α} (h : fields.keys.Nodup) (key : String) (value : α) :
    (put fields key value).keys.Nodup := by
  induction fields with
  | nil => simp [put, keys]
  | cons f rest ih =>
    obtain ⟨k, v⟩ := f
    have hn : k ∉ keys rest ∧ (keys rest).Nodup := List.nodup_cons.mp h
    rw [put]
    split
    · next hk => exact hk ▸ h
    · next hk =>
      refine List.nodup_cons.mpr ⟨fun hm => ?_, ih hn.2⟩
      rcases mem_keys_put.mp hm with hkey | hm
      · exact hk hkey
      · exact hn.1 hm

/-- the fields after a list of entries was written to them -/
def putAll (fields : Fields α) (entries : List (String × α)) : Fields α :=
  entries.foldl (fun fields e => put fields e.1 e.2) fields

theorem nodup_putAll {fields : Fields α} (h : fields.keys.Nodup) (entries : List (String × α)) :
    (putAll fields entries).keys.Nodup := by
  induction entries generalizing fields with
  | nil => exact h
  | cons e rest ih => exact ih (nodup_put h e.1 e.2)

theorem lookup_putAll (fields : Fields α) (entries : List (String × α)) (key : String) :
    (putAll fields entries).lookup key = (Table.lastUnder entries key).or (fields.lookup key) := by
  induction entries generalizing fields with
  | nil => simp [putAll, Table.lastUnder]
  | cons e rest ih =>
    change (putAll (put fields e.1 e.2) rest).lookup key = _
    rw [ih, lookup_put, Table.lastUnder_cons, Option.or_assoc]
    split <;> simp

/-! ## Arranging -/

theorem insertIndexed_perm (i : Nat) (f : String × α) (fs : List (Nat × (String × α))) :
    (insertIndexed i f fs).Perm ((i, f) :: fs) := by
  induction fs with
  | nil => exact .refl _
  | cons g rest ih =>
    obtain ⟨j, other⟩ := g
    rw [insertIndexed]
    split
    · exact .refl _
    · exact (List.Perm.cons _ ih).trans (.swap _ _ _)

theorem arrange_perm (fields : Fields α) : (arrange fields).Perm fields := by
  induction fields with
  | nil => exact .refl _
  | cons f rest ih =>
    unfold arrange at ih ⊢
    simp only [List.foldr_cons]
    cases hi : index? f.1 with
    | none =>
      rw [List.filter_cons_of_pos (by simp [hi])]
      exact List.perm_middle.trans (.cons f ih)
    | some i =>
      rw [List.filter_cons_of_neg (by simp [hi])]
      exact ((insertIndexed_perm i f _).map _).append_right _ |>.trans (.cons f ih)

theorem nodup_ofEntries (entries : List (String × α)) : (ofEntries entries).keys.Nodup :=
  ((arrange_perm _).map _).nodup_iff.mpr (nodup_putAll (by simp [keys]) entries)

theorem lookup_ofEntries (entries : List (String × α)) (key : String) :
    (ofEntries entries).lookup key = Table.lastUnder entries key := by
  have hput : (putAll [] entries).lookup key = Table.lastUnder entries key := by
    simp [lookup_putAll]
  rw [← hput]
  exact lookup_eq_of_perm (arrange_perm _) (nodup_ofEntries entries) key

theorem mem_of_mem_ofEntries {entries : List (String × α)} {e : String × α} (h : e ∈ ofEntries entries) : e ∈ entries := by
  have hlast : (ofEntries entries).lookup e.1 = some e.2 := (lookup_eq_some_iff_mem (nodup_ofEntries entries)).mpr h
  rw [lookup_ofEntries, Table.lastUnder] at hlast
  obtain ⟨before, after, hsplit, -⟩ := List.lookup_eq_some_iff.mp hlast
  rw [← List.mem_reverse, hsplit]
  simp

/-! ## Writing what was written -/

theorem put_of_not_mem {fields : Fields α} {key : String} (h : key ∉ fields.keys) (value : α) :
    put fields key value = fields ++ [(key, value)] := by
  induction fields with
  | nil => rfl
  | cons f rest ih =>
    obtain ⟨k, v⟩ := f
    have hn : key ≠ k ∧ key ∉ keys rest := by simpa [keys] using h
    rw [put, if_neg (Ne.symm hn.1), ih hn.2, List.cons_append]

theorem putAll_of_nodup {fields : Fields α} {entries : List (String × α)} (h : (keys (fields ++ entries)).Nodup) :
    putAll fields entries = fields ++ entries := by
  induction entries generalizing fields with
  | nil => rw [List.append_nil, putAll, List.foldl_nil]
  | cons e rest ih =>
    have hsplit : fields ++ e :: rest = fields ++ [e] ++ rest := by simp
    have hnew : e.1 ∉ fields.keys := by
      rw [keys, List.map_append, List.map_cons] at h
      exact fun hmem => (List.nodup_append.mp h).2.2 _ hmem _ List.mem_cons_self rfl
    change putAll (put fields e.1 e.2) rest = _
    rw [put_of_not_mem hnew, ih (hsplit ▸ h), hsplit]

/-- the fields with index keys, each with its index -/
def indexed (fields : Fields α) : List (Nat × (String × α)) :=
  fields.foldr (fun f rest => (index? f.1).elim rest fun i => insertIndexed i f rest) []

theorem arrange_eq (fields : Fields α) :
    arrange fields = (indexed fields).map (·.2) ++ fields.filter fun f => (index? f.1).isNone :=
  rfl

theorem indexed_cons_of_none {f : String × α} (h : index? f.1 = none) (rest : Fields α) :
    indexed (f :: rest) = indexed rest := by
  rw [indexed, List.foldr_cons, h]
  rfl

theorem indexed_cons_of_some {f : String × α} {i : Nat} (h : index? f.1 = some i) (rest : Fields α) :
    indexed (f :: rest) = insertIndexed i f (indexed rest) := by
  rw [indexed, List.foldr_cons, h]
  rfl

theorem insertIndexed_of_le {i : Nat} {f : String × α} {fs : List (Nat × (String × α))} (h : ∀ p ∈ fs, i ≤ p.1) :
    insertIndexed i f fs = (i, f) :: fs := by
  cases fs with
  | nil => rfl
  | cons g rest =>
    rw [insertIndexed, if_pos (h g List.mem_cons_self)]

theorem pairwise_insertIndexed {i : Nat} {f : String × α} {fs : List (Nat × (String × α))}
    (h : fs.Pairwise fun p q => p.1 ≤ q.1) : (insertIndexed i f fs).Pairwise fun p q => p.1 ≤ q.1 := by
  induction fs with
  | nil => exact List.pairwise_singleton _ _
  | cons g rest ih =>
    obtain ⟨j, other⟩ := g
    obtain ⟨hg, hrest⟩ := List.pairwise_cons.mp h
    rw [insertIndexed]
    split
    · next hij =>
      refine List.pairwise_cons.mpr ⟨fun p hp => ?_, h⟩
      rcases List.mem_cons.mp hp with rfl | hp
      · exact hij
      · exact Nat.le_trans hij (hg p hp)
    · next hij =>
      refine List.pairwise_cons.mpr ⟨fun p hp => ?_, ih hrest⟩
      rcases List.mem_cons.mp ((insertIndexed_perm i f rest).mem_iff.mp hp) with rfl | hp
      · exact Nat.le_of_not_le hij
      · exact hg p hp

/-- the fields with index keys are ascending, each under its own index -/
theorem indexed_ascending (fields : Fields α) :
    ((indexed fields).Pairwise fun p q => p.1 ≤ q.1) ∧ ∀ p ∈ indexed fields, index? p.2.1 = some p.1 := by
  induction fields with
  | nil => exact ⟨.nil, nofun⟩
  | cons f rest ih =>
    cases hi : index? f.1 with
    | none =>
      rw [indexed_cons_of_none hi]
      exact ih
    | some i =>
      rw [indexed_cons_of_some hi]
      refine ⟨pairwise_insertIndexed ih.1, fun p hp => ?_⟩
      rcases List.mem_cons.mp ((insertIndexed_perm i f _).mem_iff.mp hp) with rfl | hp
      · exact hi
      · exact ih.2 p hp

theorem indexed_of_ascending {ps : List (Nat × (String × α))} {others : Fields α} (h : ps.Pairwise fun p q => p.1 ≤ q.1)
    (hindex : ∀ p ∈ ps, index? p.2.1 = some p.1) (hothers : ∀ f ∈ others, index? f.1 = none) :
    indexed (ps.map (·.2) ++ others) = ps := by
  induction ps with
  | nil =>
    rw [List.map_nil, List.nil_append]
    induction others with
    | nil => rfl
    | cons f rest ih =>
      rw [indexed_cons_of_none (hothers f List.mem_cons_self)]
      exact ih fun g hg => hothers g (List.mem_cons_of_mem _ hg)
  | cons p rest ih =>
    obtain ⟨hp, hrest⟩ := List.pairwise_cons.mp h
    rw [List.map_cons, List.cons_append, indexed_cons_of_some (hindex p List.mem_cons_self),
      ih hrest fun q hq => hindex q (List.mem_cons_of_mem _ hq)]
    exact insertIndexed_of_le hp

/-- what was arranged stays as it is -/
theorem arrange_arrange (fields : Fields α) : arrange (arrange fields) = arrange fields := by
  obtain ⟨hascending, hindex⟩ := indexed_ascending fields
  have hothers : ∀ f ∈ fields.filter fun f => (index? f.1).isNone, index? f.1 = none := by
    intro f hf
    simpa using (List.mem_filter.mp hf).2
  have hnone : (((indexed fields).map (·.2)).filter fun f => (index? f.1).isNone) = [] := by
    refine List.filter_eq_nil_iff.mpr (List.forall_mem_map.mpr fun p hp => ?_)
    rw [hindex p hp]
    exact Bool.false_ne_true
  rw [arrange_eq, arrange_eq fields, indexed_of_ascending hascending hindex hothers, List.filter_append, hnone,
    List.nil_append, List.filter_filter]
  simp only [Bool.and_self]

/-- fields that were written one by one are written the same way again -/
theorem ofEntries_ofEntries (entries : List (String × α)) : ofEntries (ofEntries entries) = ofEntries entries := by
  have hput : putAll [] (ofEntries entries) = ofEntries entries := putAll_of_nodup (nodup_ofEntries entries)
  calc ofEntries (ofEntries entries)
      = arrange (putAll [] (ofEntries entries)) := rfl
    _ = arrange (ofEntries entries) := by rw [hput]
    _ = ofEntries entries := arrange_arrange _

end Fields

/-! ## Tables that are read -/

namespace Tables

/-- what the last entry of an object whose trimmed key is this one is read as; `__proto__` is no key -/
def lastEntry (readEntry : Value → α) (v : Value) (key : String) : Option α :=
  if key = "__proto__" then none
  else Table.lastUnder ((entriesOf v).map fun e => (nameOf e.1, readEntry e.2)) key

theorem nodup_readTable (readEntry : Value → α) (v : Value) : (readTable readEntry v).keys.Nodup :=
  Fields.nodup_ofEntries _

theorem lookup_readTable (readEntry : Value → α) (v : Value) (key : String) :
    (readTable readEntry v).lookup key = lastEntry readEntry v key := by
  let entries := (entriesOf v).map fun e => (nameOf e.1, readEntry e.2)
  calc (readTable readEntry v).lookup key
      = Table.lastUnder (entries.filter fun e => e.1 ≠ "__proto__") key := Fields.lookup_ofEntries _ _
    _ = (entries.reverse.filter fun e => e.1 ≠ "__proto__").lookup key := by rw [Table.lastUnder, List.filter_reverse]
    _ = if key = "__proto__" then none else Table.lastUnder entries key := Fields.lookup_filter_ne _ _ _

end Tables

end ChangeImpact
