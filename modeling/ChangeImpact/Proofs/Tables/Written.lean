/-
What the tables of an accepted configuration hold, in terms of what was written.

An object does not list its keys as they were written. Keys that are the text of an index come first, ascending, and all
others after them in the order in which they were written (`Fields.ListedBefore`). Two keys that are the same name but
for the blank characters around them collide, and then the entry counts that is listed last, which need not be the one
that was written last. Nothing of an earlier entry is left, and there is no entry under `__proto__`.

Results:
- `index?_injective`: different keys are the text of different indices.
- `pairwise_ofEntries`: an object lists its keys in this order.
- `lastUnder_written`, `exists_lastFor_iff`: what is found under a name is what was written in the entry that is listed last.
- `exists_writes`: the tables of every JSON value have been written in some order.
- `ofValue_holds_written`: the tables of every accepted configuration.
-/
import ChangeImpact.Proofs.Json.ReadBack
import ChangeImpact.Proofs.Tables.Rebuilt

namespace ChangeImpact

/-! ## The order of keys -/

namespace Fields

variable {α : Type} {written : Fields α} {a b : String}

/-- a key comes before another one in an object whose fields were written in the given order: index keys are ascending and
before the others, and these are in the order of their appearance -/
def ListedBefore (written : Fields α) (a b : String) : Prop :=
  match index? a, index? b with
  | some i, some j => i < j
  | some _, none => True
  | none, some _ => False
  | none, none => [a, b].Sublist written.keys

theorem toList_of_index? {key : String} {i : Nat} (h : index? key = some i) : key.toList = Nat.toDigits 10 i := by
  simp only [index?] at h
  split at h
  · next hdigits =>
    obtain rfl := Option.some.inj h
    exact hdigits.2.2.1
  · contradiction

/-- different keys are the text of different indices -/
theorem index?_injective {i : Nat} (ha : index? a = some i) (hb : index? b = some i) : a = b :=
  String.toList_inj.mp ((toList_of_index? ha).trans (toList_of_index? hb).symm)

/-- in a list without repetitions no two members are in both orders -/
theorem not_sublist_swap {names : List String} (h : names.Nodup) (hab : [a, b].Sublist names) : ¬ [b, a].Sublist names := by
  induction names with
  | nil => contradiction
  | cons x rest ih =>
    obtain ⟨hx, hrest⟩ := List.nodup_cons.mp h
    intro hba
    cases hab with
    | cons _ hab =>
      cases hba with
      | cons _ hba => exact ih hrest hab hba
      | cons_cons _ _ => exact hx (hab.subset (by simp))
    | cons_cons _ _ =>
      cases hba with
      | cons _ hba => exact hx (hba.subset (by simp))
      | cons_cons _ hba => exact hx (hba.subset (by simp))

theorem ListedBefore.asymm (h : written.keys.Nodup) (hab : written.ListedBefore a b) : ¬ written.ListedBefore b a := by
  unfold ListedBefore at hab ⊢
  cases ha : index? a with
  | some i =>
    cases hb : index? b with
    | some j =>
      simp only [ha, hb] at hab ⊢
      exact Nat.lt_asymm hab
    | none => exact id
  | none =>
    cases hb : index? b with
    | some j =>
      simp only [ha, hb] at hab
    | none =>
      simp only [ha, hb] at hab ⊢
      exact not_sublist_swap h hab

theorem ofEntries_eq_arrange (h : written.keys.Nodup) : ofEntries written = arrange written := by
  have hput : putAll [] written = written := putAll_of_nodup h
  exact congrArg arrange hput

theorem mem_ofEntries (h : written.keys.Nodup) {e : String × α} : e ∈ ofEntries written ↔ e ∈ written := by
  rw [ofEntries_eq_arrange h]
  exact (arrange_perm written).mem_iff

/-- an object lists its keys in this order -/
theorem pairwise_ofEntries (h : written.keys.Nodup) : (ofEntries written).Pairwise fun e f => written.ListedBefore e.1 f.1 := by
  obtain ⟨hascending, hindex⟩ := indexed_ascending written
  have hdistinct : ((indexed written).map (·.2)).Pairwise fun e f => e.1 ≠ f.1 := by
    have hkeys : (keys (ofEntries written)).Nodup := nodup_ofEntries written
    rw [ofEntries_eq_arrange h, arrange_eq, keys, List.map_append] at hkeys
    exact List.pairwise_map.mp (List.nodup_append.mp hkeys).1
  rw [ofEntries_eq_arrange h, arrange_eq, List.pairwise_append]
  refine ⟨?_, ?_, ?_⟩
  · rw [List.pairwise_map] at hdistinct ⊢
    refine List.Pairwise.imp_of_mem ?_ (hascending.and hdistinct)
    rintro p q hp hq ⟨hle, hne⟩
    rw [ListedBefore, hindex p hp, hindex q hq]
    -- keys with one index are one key
    refine Nat.lt_of_le_of_ne hle fun heq => hne (index?_injective (hindex p hp) ?_)
    rw [hindex q hq, heq]
  · refine List.pairwise_iff_forall_sublist.mpr fun {e f} hsub => ?_
    have hnone : ∀ g ∈ [e, f], index? g.1 = none := by
      intro g hg
      simpa using (List.mem_filter.mp (hsub.subset hg)).2
    rw [ListedBefore, hnone e (by simp), hnone f (by simp)]
    exact (hsub.trans List.filter_sublist).map (·.1)
  · intro e he f hf
    obtain ⟨p, hp, rfl⟩ := List.mem_map.mp he
    have hnone : index? f.1 = none := by simpa using (List.mem_filter.mp hf).2
    rw [ListedBefore, hindex p hp, hnone]
    trivial

end Fields

/-! ## Entries that collide -/

open Tables

/-- of the entries whose key is written for a name, the one that the object lists last -/
structure LastFor (written : Fields Value) (name : String) (e : String × Value) : Prop where
  mem : e ∈ written
  key : nameOf e.1 = name
  last : ∀ f ∈ written, nameOf f.1 = name → f = e ∨ written.ListedBefore f.1 e.1

section Colliding

variable {α : Type} {written : Fields Value} {name : String} {readEntry : Value → α}

theorem LastFor.unique (h : written.keys.Nodup) {e f : String × Value} (he : LastFor written name e)
    (hf : LastFor written name f) : e = f := by
  rcases hf.last e he.mem he.key with heq | hef
  · exact heq
  · rcases he.last f hf.mem hf.key with heq | hfe
    · exact heq.symm
    · exact absurd hfe (hef.asymm h)

/-- the entries of an object under the names that their keys are written for -/
def underNames (readEntry : Value → α) (entries : Fields Value) : Fields α :=
  entries.map fun e => (nameOf e.1, readEntry e.2)

theorem lastUnder_underNames_eq_none_iff {entries : Fields Value} :
    Table.lastUnder (underNames readEntry entries) name = none ↔ ∀ e ∈ entries, nameOf e.1 ≠ name := by
  rw [Table.lastUnder_eq_none_iff, underNames, List.forall_mem_map]

/-- the entry that counts has all others for the same name before it -/
theorem exists_of_lastUnder_underNames {entries : Fields Value} {before : String × Value → String × Value → Prop}
    (h : entries.Pairwise before) {a : α} (ha : Table.lastUnder (underNames readEntry entries) name = some a) :
    ∃ e ∈ entries, nameOf e.1 = name ∧ readEntry e.2 = a ∧ ∀ f ∈ entries, nameOf f.1 = name → f = e ∨ before f e := by
  induction entries with
  | nil => contradiction
  | cons g rest ih =>
    obtain ⟨hg, hrest⟩ := List.pairwise_cons.mp h
    rw [underNames, List.map_cons, Table.lastUnder_cons] at ha
    change (Table.lastUnder (underNames readEntry rest) name).or _ = some a at ha
    cases hlater : Table.lastUnder (underNames readEntry rest) name with
    | some b =>
      rw [hlater, Option.some_or] at ha
      obtain ⟨e, he, hkey, hread, hlast⟩ := ih hrest (hlater.trans ha)
      refine ⟨e, List.mem_cons_of_mem _ he, hkey, hread, List.forall_mem_cons.mpr ⟨fun _ => .inr (hg e he), hlast⟩⟩
    | none =>
      rw [hlater, Option.none_or] at ha
      split at ha
      · next hname =>
        have hnone := lastUnder_underNames_eq_none_iff.mp hlater
        exact ⟨g, List.mem_cons_self, hname.symm, Option.some.inj ha,
          List.forall_mem_cons.mpr ⟨fun _ => .inl rfl, fun f hf hkey => absurd hkey (hnone f hf)⟩⟩
      · contradiction

/-- what is found under a name is what was written in the entry that is listed last -/
theorem lastUnder_written (h : written.keys.Nodup) {a : α} :
    Table.lastUnder (underNames readEntry (Fields.ofEntries written)) name = some a ↔
      ∃ e, LastFor written name e ∧ readEntry e.2 = a := by
  have hfound : ∀ b, Table.lastUnder (underNames readEntry (Fields.ofEntries written)) name = some b →
      ∃ e, LastFor written name e ∧ readEntry e.2 = b := by
    intro b hb
    obtain ⟨e, he, hkey, hread, hlast⟩ := exists_of_lastUnder_underNames (Fields.pairwise_ofEntries h) hb
    refine ⟨e, ⟨(Fields.mem_ofEntries h).mp he, hkey, fun f hf => hlast f ((Fields.mem_ofEntries h).mpr hf)⟩, hread⟩
  constructor
  · exact hfound a
  · rintro ⟨e, he, rfl⟩
    cases hlast : Table.lastUnder (underNames readEntry (Fields.ofEntries written)) name with
    | none =>
      have hnone := lastUnder_underNames_eq_none_iff.mp hlast
      exact absurd he.key (hnone e ((Fields.mem_ofEntries h).mpr he.mem))
    | some b =>
      obtain ⟨f, hf, rfl⟩ := hfound b hlast
      rw [he.unique h hf]

theorem exists_lastFor_iff (h : written.keys.Nodup) :
    (∃ e, LastFor written name e) ↔ ∃ e ∈ written, nameOf e.1 = name := by
  constructor
  · rintro ⟨e, he⟩
    exact ⟨e, he.mem, he.key⟩
  · rintro ⟨e, he, hkey⟩
    cases hlast : Table.lastUnder (underNames id (Fields.ofEntries written)) name with
    | none =>
      have hnone := lastUnder_underNames_eq_none_iff.mp hlast
      exact absurd hkey (hnone e ((Fields.mem_ofEntries h).mpr he))
    | some v =>
      obtain ⟨f, hf, -⟩ := (lastUnder_written h).mp hlast
      exact ⟨f, hf⟩

end Colliding

/-! ## Whole configurations -/

/-- the value has a table under a key whose entries were written in this order; one that is left out has none -/
structure Value.Writes (v : Value) (key : String) (written : Fields Value) : Prop where
  distinct : written.keys.Nodup
  entries : entriesOf (fieldOf v key) = Fields.ofEntries written

/-- the tables of a JSON value have been written in some order -/
theorem exists_writes {v : Value} (h : v.IsJson) (key : String) : ∃ written, v.Writes key written := by
  have harranged : ∀ w : Value, w.IsJson → Fields.ofEntries (entriesOf w) = entriesOf w := by
    intro w hw
    cases hw with
    | object arranged _ => exact arranged
    | _ => rfl
  have hfield : (fieldOf v key).IsJson := by
    unfold fieldOf
    cases hlookup : (entriesOf v).lookup key with
    | none => exact .null
    | some w =>
      obtain ⟨before, after, hsplit, -⟩ := List.lookup_eq_some_iff.mp hlookup
      have hmem : (key, w) ∈ entriesOf v := by
        rw [hsplit]
        simp
      cases h with
      | object _ each => exact each _ hmem
      | _ => contradiction
  refine ⟨entriesOf (fieldOf v key), ?_, (harranged _ hfield).symm⟩
  rw [← harranged _ hfield]
  exact Fields.nodup_ofEntries _

/-- a list of texts is a set of names -/
def ListsNames (v : Value) (names : NameSet) : Prop :=
  ∃ texts : List String, v = .array (texts.map .string) ∧ ∀ x, x ∈ names ↔ ∃ t ∈ texts, nameOf t = x

/-- a text is a name -/
def SaysName (v : Value) (name : String) : Prop :=
  ∃ text, v = .string text ∧ nameOf text = name

/-- a table holds what was written: under the names that keys are written for and no others, and there what the entry says
that is listed last -/
structure Table.Holds {α : Type} (t : Table α) (means : Value → α → Prop) (written : Fields Value) : Prop where
  keys : ∀ name, (∃ a, t.get? name = some a) ↔ name ≠ "__proto__" ∧ ∃ e ∈ written, nameOf e.1 = name
  value : ∀ name a, t.get? name = some a ↔ name ≠ "__proto__" ∧ ∃ e, LastFor written name e ∧ means e.2 a

namespace Table

variable {α β : Type} {t : Table α} {means : Value → α → Prop} {v : Value}

/-- a table holds what was written if it has, under each name, what was read from the last entry for it -/
theorem holds_of_lastEntry (readEntry : Value → β) (ofRead : β → α) {written : Fields Value} (distinct : written.keys.Nodup)
    (entries : entriesOf v = Fields.ofEntries written)
    (h : ∀ name, t.get? name = (lastEntry readEntry v name).map ofRead)
    (hmeans : ∀ e ∈ written, ∀ a, ofRead (readEntry e.2) = a ↔ means e.2 a) : t.Holds means written := by
  have hvalue : ∀ name a, t.get? name = some a ↔ name ≠ "__proto__" ∧ ∃ e, LastFor written name e ∧ means e.2 a := by
    intro name a
    rw [h, lastEntry]
    split
    · next hproto =>
      rw [Option.map_none]
      exact iff_of_false (Option.some_ne_none a).symm fun hname => hname.1 hproto
    · next hproto =>
      rw [and_iff_right hproto, entries, Option.map_eq_some_iff]
      constructor
      · rintro ⟨b, hb, rfl⟩
        obtain ⟨e, he, rfl⟩ := (lastUnder_written distinct).mp hb
        exact ⟨e, he, (hmeans e he.mem _).mp rfl⟩
      · rintro ⟨e, he, ha⟩
        exact ⟨readEntry e.2, (lastUnder_written distinct).mpr ⟨e, he, rfl⟩, (hmeans e he.mem a).mpr ha⟩
  refine ⟨fun name => ?_, hvalue⟩
  rw [← exists_lastFor_iff distinct]
  constructor
  · rintro ⟨a, ha⟩
    obtain ⟨hproto, e, he, -⟩ := (hvalue name a).mp ha
    exact ⟨hproto, e, he⟩
  · rintro ⟨hproto, e, he⟩
    exact ⟨_, (hvalue name _).mpr ⟨hproto, e, he, (hmeans e he.mem _).mp rfl⟩⟩

end Table

theorem mem_readNames_texts {texts : List String} {x : String} :
    x ∈ readNames (.array (texts.map .string)) ↔ ∃ t ∈ texts, nameOf t = x := by
  rw [readNames, itemsOf, List.map_map, List.mem_map]
  exact Iff.rfl

theorem exists_texts_of_fits {v : Value} (h : namesShape.Fits v) : ∃ texts : List String, v = .array (texts.map .string) := by
  cases h with
  | @list _ _ items _ each =>
    have htext : ∀ item ∈ items, Value.string (textOf item) = item := by
      intro item hitem
      cases each item hitem with
      | name _ => rfl
    refine ⟨items.map textOf, congrArg Value.array ?_⟩
    rw [List.map_map]
    exact (List.map_id items).symm.trans (List.map_congr_left fun item hitem => (htext item hitem).symm)

/-- a list that fits is read as the names that it lists -/
theorem listsNames_iff {v : Value} {names : NameSet} (h : namesShape.Fits v) :
    NameSet.ofList (readNames v) = names ↔ ListsNames v names := by
  obtain ⟨texts, rfl⟩ := exists_texts_of_fits h
  constructor
  · rintro rfl
    refine ⟨texts, rfl, fun x => ?_⟩
    rw [NameSet.mem_ofList, mem_readNames_texts]
  · rintro ⟨others, heq, hnames⟩
    ext x
    rw [NameSet.mem_ofList, heq, mem_readNames_texts, hnames]

theorem saysName_iff {v : Value} {name : String} (h : Shape.name.Fits v) : readName v = name ↔ SaysName v name := by
  cases h with
  | @name s _ =>
    constructor
    · intro hname
      exact ⟨s, rfl, hname⟩
    · rintro ⟨text, heq, hname⟩
      rw [heq]
      exact hname

namespace Model

theorem fits_entry {entry : Shape} {v : Value} {key : String} {written : Fields Value} (h : Tables.shape.Fits v)
    (hfield : (key, false, Shape.table entry) ∈ fieldShapes) (hw : v.Writes key written) {e : String × Value}
    (he : e ∈ written) : entry.Fits e.2 := by
  refine fits_of_mem_entriesOf (fits_optional h hfield) ?_
  rw [hw.entries]
  exact (Fields.mem_ofEntries hw.distinct).mpr he

/-- **Tables hold what was written.** The tables of name lists of every accepted configuration, and its check targets, have an
entry under a name iff the name is not `__proto__` and some key is written for it. What they have there is what is written in
the one of these entries that the object lists last: the names of its list, without repetitions, or its one name. The tables of
a JSON value are always of this kind. -/
theorem ofValue_holds_written {v : Value} {m : Model} (h : ofValue v = .ok m) :
    (∀ (n : TableName) (written : Fields Value), v.Writes n.text written → (m.table n).Holds ListsNames written) ∧
    (∀ written : Fields Value, v.Writes "check_targets" written → m.checkTargets.Holds SaysName written) ∧
    (v.IsJson → ∀ key, ∃ written, v.Writes key written) := by
  obtain ⟨hfits, rfl, -⟩ := ofValue_eq_ok_iff_sound.mp h
  have hlast := Tables.holdsLast_ofValue v
  refine ⟨fun n written hw => ?_, fun written hw => ?_, exists_writes⟩
  · have hfield : (n.text, false, nameListsShape) ∈ fieldShapes := by
      cases n <;> simp [fieldShapes, TableName.text]
    refine Table.holds_of_lastEntry readNames NameSet.ofList hw.distinct hw.entries (fun name => ?_) fun e he names => ?_
    · rw [table_ofTables, NameLists.get?_toTable (hlast.tables n), hlast.entry n name]
    · exact listsNames_iff (fits_entry hfits hfield hw he)
  · have hfield : ("check_targets", false, Shape.table .name) ∈ fieldShapes := by simp [fieldShapes]
    refine Table.holds_of_lastEntry readName id hw.distinct hw.entries (fun name => ?_) fun e he target => ?_
    · change (Table.ofEntries (Tables.ofValue v).checkTargets).get? name = _
      rw [Table.get?_ofEntries, Table.lastUnder_eq_lookup hlast.targets, hlast.target name, Option.map_id, id_eq]
    · exact saysName_iff (fits_entry hfits hfield hw he)

/-- dependencies in which a padded key is written before the index that it collides with, and one with a name twice -/
def collidingDependencies : Fields Value :=
  [(" 2", .array [.string "clang"]), ("2", .array [.string "llvm"]),
   ("clang", .array [.string " llvm", .string "llvm "]), ("__proto__", .array [])]

/-- a configuration with these dependencies and without check targets -/
def colliding : Value :=
  .object
    [("projects", .array [.string "2", .string "clang", .string "llvm"]),
     ("dependencies", .ofEntries collidingDependencies)]

/-- the index comes first in the object, so that the list counts which was written before its own -/
theorem ofValue_holds_written_colliding :
    ∃ m, ofValue colliding = .ok m ∧ colliding.Writes "dependencies" collidingDependencies ∧
      m.dependencies.get? "2" = some (.ofList ["clang"]) ∧ (∀ names, m.dependencies.get? "__proto__" ≠ some names) ∧
      colliding.Writes "check_targets" [] ∧ ∀ name target, m.checkTargets.get? name ≠ some target := by
  have hfits : Tables.shape.issues [] colliding = [] := by decide +kernel
  have hnames : (Tables.ofValue colliding).offences = [] := by decide +kernel
  have hok : ofValue colliding = .ok (ofTables (Tables.ofValue colliding)) :=
    ofValue_eq_ok_iff.mpr ⟨hfits, (Tables.offences_eq_nil_iff _).mp hnames, rfl⟩
  have hwrites : colliding.Writes "dependencies" collidingDependencies := ⟨by decide, by decide +kernel⟩
  have hnone : colliding.Writes "check_targets" [] := ⟨by decide, by decide +kernel⟩
  have hlast : LastFor collidingDependencies "2" (" 2", .array [.string "clang"]) := by
    have hindex : Fields.index? "2" = some 2 := by decide
    have hpadded : Fields.index? " 2" = none := by decide
    have hall : ∀ f ∈ collidingDependencies, nameOf f.1 = "2" → f = (" 2", .array [.string "clang"]) ∨ f.1 = "2" := by decide
    refine ⟨by simp [collidingDependencies], by decide, fun f hf hkey => (hall f hf hkey).imp_right fun hf => ?_⟩
    rw [hf, Fields.ListedBefore, hindex, hpadded]
    trivial
  have hlists : ListsNames (.array [.string "clang"]) (.ofList ["clang"]) := by
    have hname : nameOf "clang" = "clang" := by decide
    refine ⟨["clang"], rfl, fun x => ?_⟩
    simp [hname, eq_comm]
  obtain ⟨htables, htargets, -⟩ := ofValue_holds_written hok
  have hdependencies := htables .dependencies collidingDependencies hwrites
  refine ⟨_, hok, hwrites, ?_, ?_, hnone, ?_⟩
  · exact (hdependencies.value "2" _).mpr ⟨by decide, _, hlast, hlists⟩
  · intro names hget
    exact ((hdependencies.keys "__proto__").mp ⟨names, hget⟩).1 rfl
  · intro name target hget
    obtain ⟨-, e, he, -⟩ := ((htargets [] hnone).keys name).mp ⟨target, hget⟩
    contradiction

end Model

end ChangeImpact
