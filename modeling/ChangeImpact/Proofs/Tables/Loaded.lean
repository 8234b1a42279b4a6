/-
Loading tables, and what becomes of a failure.

Three things are done to load tables: the file is read, its text is taken for a value, and the value is checked. There is a
model iff all three succeed, and it is the one that the value is accepted as. Whatever fails, the user is told in one way,
by an error with a code of its own for configurations, behind which the failure itself stands as the cause (`Unloaded`). Of
tables that were refused the message repeats every line of the refusal, in its order and with nothing between.

The way from a text to a value is any function.

Before that a file has to be found. The one that comes with the program is looked for in the folders above the program,
and where none of them has it there are no tables (`findTables_eq_none_iff`).

Results:
- `findUp_eq_find?`, `findTables_eq_none_iff`: which file it is, and when there is none.
- `load_of_unreadable`, `load_of_unparsed`, `load_of_value`: how loading goes on after each step.
- `message_refused`: the message about tables that were refused, line by line.
- `load_decides`: when there is a model, and what there is otherwise.
-/
import ChangeImpact.Proofs.Tables.Acceptance
import ChangeImpact.Proofs.Text.Joined
import ChangeImpact.Run.Surroundings
import Mathlib.Data.List.Infix

namespace ChangeImpact

/-! ## Which file -/

/-- looking upwards goes through the folders above a place, the nearest one first -/
theorem findUp_eq_find? (test : Location → Bool) (names : List String) :
    findUp test names = (names.tails.map List.reverse).find? test := by
  induction names with
  | nil =>
    rw [findUp, List.tails, List.map_singleton, List.find?_singleton, List.reverse_nil]
  | cons name above ih =>
    rw [findUp, ih, List.tails, List.map_cons, List.find?_cons]
    cases test (name :: above).reverse with
    | true => rfl
    | false => rfl

/-- There is no file with tables when no path is given for one and no folder above the program has one. -/
theorem findTables_eq_none_iff {disk : Disk} {directory root : String} {explicit environment : Option String} :
    findTables disk directory root explicit environment = none ↔
      givenPath? directory explicit environment = none ∧
        ∀ folder, folder <+: Path.place "/" root → disk.exists (Path.ofPlace (folder ++ bundledName)) = false := by
  have hbundled : bundledPath? disk root = none ↔
      ∀ folder, folder <+: Path.place "/" root → disk.exists (Path.ofPlace (folder ++ bundledName)) = false := by
    rw [bundledPath?, Option.map_eq_none_iff, findUp_eq_find?, List.find?_eq_none]
    simp only [List.mem_map, List.mem_tails, forall_exists_index, and_imp, forall_apply_eq_imp_iff₂, Bool.not_eq_true]
    constructor
    · intro h folder hfolder
      have hnone := h folder.reverse (List.reverse_suffix.mpr hfolder)
      rwa [List.reverse_reverse] at hnone
    · intro h above habove
      apply h
      rw [← List.reverse_suffix, List.reverse_reverse]
      exact habove
  rw [findTables, ← hbundled]
  cases givenPath? directory explicit environment with
  | none => simp
  | some found => simp

variable {read : String → Except String Value} {disk : Disk} {directory path text reason : String} {v : Value}

/-! ## The three steps -/

theorem load_of_unreadable {e : DiskError} (h : disk.read [] (Path.absolute directory path) = .error e) :
    load read disk directory path = .error (.unreadable (Path.absolute directory path) e) := by
  simp only [load, h]

theorem load_of_unparsed (htext : disk.read [] (Path.absolute directory path) = .ok text) (h : read text = .error reason) :
    load read disk directory path = .error (.notYaml (Path.absolute directory path) reason) := by
  simp only [load, htext, h]

theorem load_of_value (htext : disk.read [] (Path.absolute directory path) = .ok text) (h : read text = .ok v) :
    load read disk directory path = (Model.ofValue v).mapError (.refused (Path.absolute directory path)) := by
  simp only [load, htext, h]
  cases Model.ofValue v with
  | error r => rfl
  | ok m => rfl

theorem load_eq_ok_iff {m : Model} :
    load read disk directory path = .ok m ↔
      ∃ text v, disk.read [] (Path.absolute directory path) = .ok text ∧ read text = .ok v ∧ Model.ofValue v = .ok m := by
  constructor
  · intro h
    cases htext : disk.read [] (Path.absolute directory path) with
    | error e =>
      rw [load_of_unreadable htext] at h
      cases h
    | ok text =>
      cases hv : read text with
      | error reason =>
        rw [load_of_unparsed htext hv] at h
        cases h
      | ok v =>
        rw [load_of_value htext hv] at h
        refine ⟨text, v, rfl, hv, ?_⟩
        cases hm : Model.ofValue v with
        | error r =>
          rw [hm] at h
          cases h
        | ok m =>
          rw [hm] at h
          exact congrArg Except.ok (Except.ok.inj h)
  · rintro ⟨text, v, htext, hv, hm⟩
    rw [load_of_value htext hv, hm]
    rfl

/-! ## Failures -/

/-- the message about tables that were refused repeats every line of the refusal -/
theorem message_refused (path : String) (r : Refusal) :
    (LoadError.refused path r).message =
      r.message ++ " (" ++ path ++ ")" ++ String.join (r.details.map ("\n  - " ++ ·)) := by
  have hbullet : "\n" ++ "  - " = "\n  - " := by decide
  have hbullets : (r.details.map ("  - " ++ ·)).map ("\n" ++ ·) = r.details.map ("\n  - " ++ ·) := by
    rw [List.map_map]
    refine List.map_congr_left fun line _ => ?_
    calc "\n" ++ ("  - " ++ line) = ("\n" ++ "  - ") ++ line := String.append_assoc.symm
      _ = "\n  - " ++ line := congrArg (· ++ line) hbullet
  unfold LoadError.message
  dsimp only
  rw [Text.intercalate_cons, hbullets]

/-- an error of the program that was caught, with its message -/
def caught (message : String) : Failure :=
  .error .other "Error" message none none

/-- why a file gives no model: what a user is told, and the failure behind it -/
inductive Unloaded (read : String → Except String Value) (disk : Disk) (path : String) : String → Failure → Prop
  | unreadable {e : DiskError} (h : disk.read [] path = .error e) :
    Unloaded read disk path ("Could not read selection config at " ++ path ++ ".") (caught e.message)
  | unparsed {text reason : String} (htext : disk.read [] path = .ok text) (h : read text = .error reason) :
    Unloaded read disk path ("Could not parse " ++ path ++ ".") (caught reason)
  | refused {text : String} {v : Value} {r : Refusal} (htext : disk.read [] path = .ok text) (hv : read text = .ok v)
      (h : Model.ofValue v = .error r) :
    Unloaded read disk path (r.message ++ " (" ++ path ++ ")" ++ String.join (r.details.map ("\n  - " ++ ·)))
      (.error (.tables r.details) "ConfigError" r.message none none)

/-- a user is told of a failure by an error that is already worded, under the code for configurations -/
def ToldAs (e : LoadError) (message : String) (cause : Failure) : Prop :=
  ∃ title hint, e.failure = .error (.reported "CONFIG_ERROR" title hint none) "UserFacingError" message none (some cause)

theorem told_refused (path : String) (r : Refusal) :
    ToldAs (.refused path r) (r.message ++ " (" ++ path ++ ")" ++ String.join (r.details.map ("\n  - " ++ ·)))
      (.error (.tables r.details) "ConfigError" r.message none none) := by
  refine ⟨(LoadError.refused path r).title, some "Fix the selection tables or pass --config <path>.", ?_⟩
  rw [← message_refused]
  rfl

theorem exists_unloaded (h : ∀ m, load read disk directory path ≠ .ok m) :
    ∃ e message cause, load read disk directory path = .error e ∧ ToldAs e message cause ∧
      Unloaded read disk (Path.absolute directory path) message cause := by
  cases htext : disk.read [] (Path.absolute directory path) with
  | error e => exact ⟨_, _, _, load_of_unreadable htext, ⟨_, _, rfl⟩, .unreadable htext⟩
  | ok text =>
    cases hv : read text with
    | error reason => exact ⟨_, _, _, load_of_unparsed htext hv, ⟨_, _, rfl⟩, .unparsed htext hv⟩
    | ok v =>
      cases hm : Model.ofValue v with
      | error r =>
        refine ⟨.refused _ r, _, _, ?_, told_refused _ r, .refused htext hv hm⟩
        rw [load_of_value htext hv, hm]
        rfl
      | ok m => exact absurd (load_eq_ok_iff.mpr ⟨text, v, htext, hv, hm⟩) (h m)

/-- **Loading is reading, parsing and checking.** For every reader of texts, every disk and every path: there is a model iff the
file has a text, the text stands for a value and the value is accepted as this model. In all other cases there is an error that
is told under the code for configurations and has for its cause what failed. If the value was refused, the cause is the refusal
with all its lines, and the message is that of the refusal with the path behind it and then each line, in order, on a line of
its own. -/
theorem load_decides (read : String → Except String Value) (disk : Disk) (directory path : String) :
    let file := Path.absolute directory path
    (∀ m, load read disk directory path = .ok m ↔
      ∃ text v, disk.read [] file = .ok text ∧ read text = .ok v ∧ Model.ofValue v = .ok m) ∧
    ((∀ m, load read disk directory path ≠ .ok m) →
      ∃ e message cause, load read disk directory path = .error e ∧ ToldAs e message cause ∧
        Unloaded read disk file message cause) ∧
    (∀ text v r, disk.read [] file = .ok text → read text = .ok v → Model.ofValue v = .error r →
      ∃ e, load read disk directory path = .error e ∧
        ToldAs e (r.message ++ " (" ++ file ++ ")" ++ String.join (r.details.map ("\n  - " ++ ·)))
          (.error (.tables r.details) "ConfigError" r.message none none)) := by
  intro file
  refine ⟨fun _ => load_eq_ok_iff, exists_unloaded, fun text v r htext hv hr => ⟨.refused file r, ?_, told_refused file r⟩⟩
  rw [load_of_value htext hv, hr]
  rfl

/-- a file with two names that are no projects, and a file that is not there -/
theorem load_decides_misnamed :
    let disk : Disk := ⟨[(["work"], .folder), (["work", "tables.yaml"], .file "projects: [llvm]\nskip_projects: [docs, mlir]\n")]⟩
    (∃ e, load Surroundings.readTables disk "/work" "tables.yaml" = .error e ∧
      ToldAs e
        ("Selection config tables are inconsistent. (/work/tables.yaml)\n  - skip_projects: unknown project \"docs\"" ++
          "\n  - skip_projects: unknown project \"mlir\"")
        (.error (.tables ["skip_projects: unknown project \"docs\"", "skip_projects: unknown project \"mlir\""]) "ConfigError"
          "Selection config tables are inconsistent." none none)) ∧
    ∃ e message cause, load Surroundings.readTables disk "/work" "none.yaml" = .error e ∧ ToldAs e message cause ∧
      Unloaded Surroundings.readTables disk "/work/none.yaml" message cause := by
  intro disk
  have hfile : Path.absolute "/work" "tables.yaml" = "/work/tables.yaml" := by decide +kernel
  have hnone : Path.absolute "/work" "none.yaml" = "/work/none.yaml" := by decide +kernel
  have hmissing : ∀ m, load Surroundings.readTables disk "/work" "none.yaml" ≠ .ok m := by
    intro m h
    obtain ⟨text, v, htext, -⟩ := load_eq_ok_iff.mp h
    rw [hnone] at htext
    cases htext
  have hv : Surroundings.readTables "projects: [llvm]\nskip_projects: [docs, mlir]\n" =
      .ok (.object [("projects", .array [.string "llvm"]), ("skip_projects", .array [.string "docs", .string "mlir"])]) := by
    decide +kernel
  obtain ⟨-, hunloaded, -⟩ := load_decides Surroundings.readTables disk "/work" "none.yaml"
  obtain ⟨-, -, hrefused⟩ := load_decides Surroundings.readTables disk "/work" "tables.yaml"
  rw [hnone] at hunloaded
  rw [hfile] at hrefused
  refine ⟨?_, hunloaded hmissing⟩
  exact hrefused _ _ (.names [.unknown .skipped "docs", .unknown .skipped "mlir"]) rfl hv rfl

end ChangeImpact
