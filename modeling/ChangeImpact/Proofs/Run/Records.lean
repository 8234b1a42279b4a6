/-
The records that a computation adds to its log.

A computation tells its log of four events: its tables, and then the start, the touched projects and the
settings of a scope. What is written for each of them is one line, which is read back as a record of the
event with the time and the command beside it (`Notes`). How many files there are is a whole number, and
double precision holds one of up to 53 bits as it is (`Counts`); nothing is said of more files than that,
and there are never so many.

Results:
- `notes_line`: the line of an event with a JSON payload.
- `notes_loaded`: the record of the tables.
- `scopeTold_lines`: the three records of a scope.
-/
import ChangeImpact.Proofs.Log.Lines
import ChangeImpact.Proofs.Run.AllOrNothing
import Mathlib.Data.Finset.Card

namespace ChangeImpact

open ChangeImpact.Text

/-! ## How many files are counted -/

/-- a value is the number of things that there are -/
def Counts (n : Nat) (v : Value) : Prop :=
  n < Nat.pow 2 53 → ∃ x : Finite, v = .number (.finite x) ∧ x.negative = false ∧ x.size = n * unitsInOne

/-- the number of things that there are is written like a JSON value -/
theorem exists_counts (n : Nat) : ∃ v, Counts n v ∧ v.IsJson ∧ Json.write v = Json.write (.ofNat n) := by
  cases hn : Number.ofRatio false n 1 with
  | finite x =>
    refine ⟨.ofNat n, fun h => ?_, ?_, rfl⟩
    · obtain ⟨x, hx, hsign, hsize⟩ := Number.ofRatio_exact h
      exact ⟨x, congrArg Value.number hx, hsign, hsize⟩
    · rw [Value.ofNat, hn]
      exact .number x
  | infinite negative =>
    refine ⟨.null, fun h => ?_, .null, ?_⟩
    · obtain ⟨x, hx, -⟩ := Number.ofRatio_exact h
      rw [hn] at hx
      contradiction
    · rw [Value.ofNat, hn, Json.write, Json.write]
      rfl
  | undefined => exact absurd hn (Number.ofRatio_ne_undefined false n 1)

theorem size_cleanAll (files : List String) : (cleanAll files).size = ((files.map clean).toFinset.erase "").card := by
  have hnames : (cleanAll files).names.toFinset = (files.map clean).toFinset.erase "" := by
    ext x
    rw [List.mem_toFinset, NameSet.mem_names, mem_cleanAll, Finset.mem_erase, List.mem_toFinset, List.mem_map]
  rw [← hnames, List.toFinset_card_of_nodup (cleanAll files).nodup]
  rfl

namespace Run

/-! ## Records -/

/-- a text is the line of event number `n` of a computation -/
def Notes (s : Surroundings) (n : Nat) (type : String) (payload : List (String × Value)) (line : String) : Prop :=
  Event.IsLine [("command", .string "compute")] (s.clock n) ⟨type, some payload⟩ line

/-- three lines are the records of the scope that some files have, with these settings at last -/
structure ScopeTold (s : Surroundings) (m : Model) (platform : String) (files : List String) (e : Environment)
    (added : String) : Prop where
  told : ∃ (touched : List String) (count : Value) (second third fourth : String),
    touched.Pairwise Before ∧ (∀ x, x ∈ touched ↔ ∃ f ∈ files, x ∈ m.owners (clean f)) ∧
    Counts ((files.map clean).toFinset.erase "").card count ∧
    Notes s 1 "scope.start" [("platform", .string platform), ("file_count", count)] second ∧
    Notes s 2 "scope.touched" [("projects", .array (touched.map .string))] third ∧
    Notes s 3 "scope.complete"
      [("projects_to_build", .string e.built), ("project_check_targets", .string e.checkTargets),
       ("runtimes_to_build", .string e.runtimesBuilt), ("runtimes_check_targets", .string e.runtimeTargets),
       ("runtimes_check_targets_needs_reconfig", .string e.reconfiguredTargets),
       ("enable_cir", .string e.sentinel)] fourth ∧
    added = second ++ third ++ fourth

/-! ## Payloads -/

theorem isJson_object {fields : List (String × Value)} (hkeys : (Fields.keys fields).Nodup)
    (hindex : ∀ f ∈ fields, Fields.index? f.1 = none) (each : ∀ f ∈ fields, f.2.IsJson) :
    (Value.object fields).IsJson :=
  .object (Fields.ofEntries_of_nodup hkeys hindex) each

theorem isJson_singleton {key : String} (h : Fields.index? key = none) {v : Value} (hv : v.IsJson) :
    (Value.object [(key, v)]).IsJson := by
  apply isJson_object
  · exact List.nodup_singleton key
  · intro f hf
    rw [List.mem_singleton.mp hf]
    exact h
  · intro f hf
    rw [List.mem_singleton.mp hf]
    exact hv

theorem isJson_start (platform : String) {count : Value} (h : count.IsJson) :
    (Value.object [("platform", .string platform), ("file_count", count)]).IsJson := by
  apply isJson_object
  · have hkeys : ["platform", "file_count"].Nodup := by decide
    exact hkeys
  · simp only [List.forall_mem_cons]
    decide
  · simp only [List.forall_mem_cons]
    exact ⟨.string platform, h, nofun⟩

theorem isJson_strings (items : List String) : (Value.array (items.map .string)).IsJson := by
  refine .array fun v hv => ?_
  obtain ⟨item, -, rfl⟩ := List.mem_map.mp hv
  exact .string item

theorem isJson_settings (e : Environment) : (Value.object (e.settings.map fun s => (s.1, .string s.2))).IsJson := by
  refine .object e.ofEntries_settings fun f hf => ?_
  obtain ⟨setting, -, rfl⟩ := List.mem_map.mp hf
  exact .string setting.2

/-! ## Lines -/

theorem notes_line (s : Surroundings) (n : Nat) (type : String) {payload : List (String × Value)}
    (h : (Value.object payload).IsJson) :
    Notes s n type payload (Event.line logContext (s.clock n) ⟨type, some payload⟩) := by
  refine Event.isLine_line (isJson_singleton (by decide) (.string "compute")) fun p hp => ?_
  rw [← Option.some.inj hp]
  exact h

/-- of the count only what is written of it is in the line -/
theorem line_start (time : Instant) (platform : String) {count count' : Value} (h : Json.write count = Json.write count') :
    Event.line logContext time ⟨"scope.start", some [("platform", .string platform), ("file_count", count)]⟩ =
      Event.line logContext time ⟨"scope.start", some [("platform", .string platform), ("file_count", count')]⟩ := by
  have hrecord : ∀ payload : Value, Fields.ofEntries [("ts", .string time.text), ("type", .string "scope.start"),
      ("command", .string "compute"), ("payload", payload)] =
      [("ts", .string time.text), ("type", .string "scope.start"), ("command", .string "compute"),
       ("payload", payload)] := by
    intro payload
    apply Fields.ofEntries_of_nodup
    · have hkeys : ["ts", "type", "command", "payload"].Nodup := by decide
      exact hkeys
    · simp only [List.forall_mem_cons]
      decide
  have hwritten : ∀ c : Value, Json.write
      (Event.record logContext time ⟨"scope.start", some [("platform", .string platform), ("file_count", c)]⟩) =
      Json.write (.object [("ts", .string time.text), ("type", .string "scope.start"), ("command", .string "compute"),
        ("payload", .object [("platform", .string platform), ("file_count", c)])]) :=
    fun c => congrArg (fun fields => Json.write (.object fields)) (hrecord _)
  simp only [Event.line, hwritten, Json.write, Json.writeFields, h]

theorem notes_loaded (s : Surroundings) (path : String) :
    Notes s 0 "config.loaded" [("path", .string path)] (Log.linesFrom logContext s.clock 0 [loadedEvent path]) := by
  rw [Log.linesFrom, Log.linesFrom, String.append_empty]
  exact notes_line s 0 "config.loaded" (isJson_singleton (by decide) (.string path))

/-- the three records of a scope -/
theorem scopeTold_lines (s : Surroundings) (m : Model) (platform : String) (files : List String) :
    ScopeTold s m platform files (m.scope files platform).environment
      (Log.linesFrom logContext s.clock 1 ((m.scope files platform).events platform)) := by
  obtain ⟨count, hcount, hjson, hwrite⟩ := exists_counts (m.scope files platform).files.size
  have hsize : (m.scope files platform).files.size = ((files.map clean).toFinset.erase "").card := size_cleanAll files
  have hstart := notes_line s 1 "scope.start" (isJson_start platform hjson)
  have htouched := notes_line s 2 "scope.touched"
    (@isJson_singleton "projects" (by decide) _ (isJson_strings (m.scope files platform).touched.names))
  have hcomplete := notes_line s 3 "scope.complete" (isJson_settings (m.scope files platform).environment)
  refine ⟨⟨(m.scope files platform).touched.names, count, _, _, _, NameSet.ascending _, fun _ => mem_projectsOf,
    hsize ▸ hcount, hstart, htouched, hcomplete, ?_⟩⟩
  rw [line_start (s.clock 1) platform hwrite, Scope.events]
  simp only [Log.linesFrom, String.append_empty, String.append_assoc]

end Run

end ChangeImpact
