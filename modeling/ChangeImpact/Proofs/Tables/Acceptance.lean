/-
Which values are accepted as configurations, and what the others are refused with.

A value is judged in two steps. One that does not fit the shape is refused with its departures from
it, and its names are not looked at. For one that fits, the offences of the tables read off it
decide: without any it is accepted, and otherwise refused with a list of them.

Results:
- `holdsLast_ofValue`: the tables that are read have each trimmed key once, with its last entry.
- `ofValue_decides`: every value is accepted or refused as it should be, and a refusal for the names
  lists every offence exactly as often as the tables commit it.
-/
import ChangeImpact.Proofs.Tables.Entries
import ChangeImpact.Proofs.Tables.Fitting
import ChangeImpact.Proofs.Tables.Occurrences

namespace ChangeImpact

namespace Tables

/-- the tables have each key once, with the last entry that the value has under it -/
structure HoldsLast (t : Tables) (v : Value) : Prop extends t.DistinctKeys where
  entry : ∀ n key, (t.table n).lookup key = lastEntry readNames (fieldOf v n.text) key
  target : ∀ key, t.checkTargets.lookup key = lastEntry readName (fieldOf v "check_targets") key

theorem table_ofValue (v : Value) (n : TableName) : (ofValue v).table n = readTable readNames (fieldOf v n.text) := by
  cases n <;> rfl

theorem holdsLast_ofValue (v : Value) : (ofValue v).HoldsLast v where
  tables n := by
    rw [table_ofValue]
    exact nodup_readTable _ _
  targets := nodup_readTable _ _
  entry n key := by
    rw [table_ofValue]
    exact lookup_readTable _ _ _
  target key := lookup_readTable _ _ _

/-- tables that list no offence are those that commit none -/
theorem offences_eq_nil_iff_occurrences {t : Tables} (h : t.DistinctKeys) :
    t.offences = [] ↔ ∀ o, t.occurrences o = 0 := by
  constructor
  · intro hnil o
    rw [← count_offences h, hnil]
    rfl
  · intro hzero
    refine List.eq_nil_iff_forall_not_mem.mpr fun o ho => ?_
    have hcount : 0 < t.offences.count o := List.count_pos_iff.mpr ho
    rw [count_offences h, hzero] at hcount
    exact Nat.lt_irrefl 0 hcount

end Tables

namespace Model

theorem ofValue_of_not_fits {v : Value} (h : ¬ Tables.shape.Fits v) :
    ofValue v = .error (.shape (Tables.shape.issues [] v)) := by
  unfold ofValue Tables.read
  cases hs : Tables.shape.issues [] v with
  | nil => exact absurd ((Shape.issues_eq_nil_iff _ _ _).mp hs) h
  | cons i is => rfl

theorem ofValue_of_fits {v : Value} (h : Tables.shape.Fits v) : ofValue v = check (Tables.ofValue v) := by
  have hs : Tables.shape.issues [] v = [] := (Shape.issues_eq_nil_iff _ _ _).mpr h
  simp [ofValue, Tables.read, hs]

theorem check_eq_ok_iff {t : Tables} : check t = .ok (ofTables t) ↔ t.offences = [] := by
  unfold check
  split
  · next h => exact iff_of_true rfl h
  · next h => exact iff_of_false nofun h

theorem check_of_offences {t : Tables} (h : t.offences ≠ []) : check t = .error (.names t.offences) := by
  unfold check
  split
  · next hnil => exact absurd hnil h
  · rfl

/-- **Every value is accepted or refused for what it is.** A value that does not fit the shape is refused with issues of
its shape. The tables of one that fits hold under each trimmed key its last entry, and the value is accepted, as the
model of these tables, iff they commit no offence. If they commit one, the value is refused with a list of offences in
which each stands exactly as often as the tables commit it, and its report has one line for each. -/
theorem ofValue_decides (v : Value) :
    let t := Tables.ofValue v
    (¬ Tables.shape.Fits v → ∃ issues, issues ≠ [] ∧ ofValue v = .error (.shape issues)) ∧
    (Tables.shape.Fits v →
      t.HoldsLast v ∧
      (ofValue v = .ok (ofTables t) ↔ ∀ o, t.occurrences o = 0) ∧
      ((∃ o, t.occurrences o ≠ 0) →
        ∃ offences, ofValue v = .error (.names offences) ∧
          (Refusal.names offences).details = offences.map Offence.text ∧
          ∀ o, offences.count o = t.occurrences o)) := by
  intro t
  refine ⟨fun h => ?_, fun h => ?_⟩
  · exact ⟨_, fun hs => h ((Shape.issues_eq_nil_iff _ _ _).mp hs), ofValue_of_not_fits h⟩
  · have hlast : t.HoldsLast v := Tables.holdsLast_ofValue v
    have hnil : t.offences = [] ↔ ∀ o, t.occurrences o = 0 :=
      Tables.offences_eq_nil_iff_occurrences hlast.toDistinctKeys
    rw [ofValue_of_fits h]
    refine ⟨hlast, check_eq_ok_iff.trans hnil, fun ⟨o, ho⟩ => ?_⟩
    have hsome : t.offences ≠ [] := fun hz => ho (hnil.mp hz o)
    exact ⟨t.offences, check_of_offences hsome, rfl, Tables.count_offences hlast.toDistinctKeys⟩

/-- a value with one unknown check target under two spellings of its key and one unknown name twice in a list -/
def misnamed : Value :=
  .object
    [("projects", .array [.string "llvm"]),
     ("check_targets", .object [(" lvm", .string "check-lvm"), ("lvm ", .string "check-llvm")]),
     ("skip_projects", .array [.string "docs", .string "docs"])]

/-- a value without projects, and one that fits and is refused for three offences of two kinds -/
theorem ofValue_decides_misnamed :
    (∃ issues, issues ≠ [] ∧ ofValue (.object []) = .error (.shape issues)) ∧
    (Tables.ofValue misnamed).checkTargets.lookup "lvm" = some "check-llvm" ∧
    ∃ offences, ofValue misnamed = .error (.names offences) ∧
      offences.count (.unknown (.checkTarget "lvm") "lvm") = 1 ∧ offences.count (.unknown .skipped "docs") = 2 := by
  have hbare : ¬ Tables.shape.Fits (.object []) := by
    rw [← Shape.issues_eq_nil_iff _ [] _]
    decide +kernel
  have hfits : Tables.shape.Fits misnamed := by
    rw [← Shape.issues_eq_nil_iff _ [] _]
    decide +kernel
  have htarget : (Tables.ofValue misnamed).occurrences (.unknown (.checkTarget "lvm") "lvm") = 1 := by decide +kernel
  have hskipped : (Tables.ofValue misnamed).occurrences (.unknown .skipped "docs") = 2 := by decide +kernel
  obtain ⟨-, -, hrefused⟩ := (ofValue_decides misnamed).2 hfits
  obtain ⟨offences, hr, -, hcount⟩ := hrefused ⟨.unknown .skipped "docs", by simp [hskipped]⟩
  exact ⟨(ofValue_decides (.object [])).1 hbare, by decide +kernel, offences, hr, (hcount _).trans htarget,
    (hcount _).trans hskipped⟩

end Model

end ChangeImpact
