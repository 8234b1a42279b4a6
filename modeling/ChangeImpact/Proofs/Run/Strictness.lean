/-
What strictness about the platform does.

A strict run refuses a platform that is none of the three before it does anything else. That is all that
strictness does: on the three platforms a run is the same with and without it. A run that is not strict goes
on with the platform that nobody knows, after one warning, and works as if the tables had no exclusions.
Whether a platform is one of the three is asked twice, when the run begins and again when the exclusions are
looked up, and for every argument both give the same answer.

Results:
- `Platform.meant_iff`, `Platform.ofName?_ne_none_iff`: the platform that is meant, and whether it is one of the three.
- `compute_of_recognized`, `compute_of_refused`: strict computations.
- `preface_of_permissive`: what a computation that is not strict says first.
- `compute_alike`: on disks that are alike computations come to their results alike.
- `compute_unexcluded`, `success_of_unexcluded`: the result is that on a known platform without exclusions.
- `strict_only_rejects`: all of it for whole runs.
-/
import ChangeImpact.Proofs.Disk.Alike
import ChangeImpact.Proofs.Run.AllOrNothing
import ChangeImpact.Proofs.Tables.Unexcluded

namespace ChangeImpact

/-! ## Platforms -/

namespace Platform

/-- the platform that an argument means: the argument without the blank characters around it, or the host's platform when the
argument is missing or blank -/
inductive Meant (systemName : String) : Option String → String → Prop
  | given {argument : String} (h : Text.trim argument ≠ "") : Meant systemName (some argument) (Text.trim argument)
  | blank {argument : String} (h : Text.trim argument = "") : Meant systemName (some argument) (hostName systemName)
  | missing : Meant systemName none (hostName systemName)

theorem named_of_meant {systemName platform : String} {argument : Option String} (h : Meant systemName argument platform) :
    named argument systemName = platform := by
  cases h with
  | given h => simp [named, Text.present?, h]
  | blank h => simp [named, Text.present?, h]
  | missing => rfl

/-- every argument means one platform -/
theorem meant_named (argument : Option String) (systemName : String) :
    Meant systemName argument (named argument systemName) := by
  cases argument with
  | none => exact .missing
  | some argument =>
    by_cases h : Text.trim argument = ""
    · simpa [named, Text.present?, h] using @Meant.blank systemName argument h
    · simpa [named, Text.present?, h] using @Meant.given systemName argument h

theorem ofName?_ne_none_iff {s : String} : ofName? s ≠ none ↔ s ∈ ["Linux", "Windows", "Darwin"] := by
  rw [Option.ne_none_iff_isSome, ofName?, List.find?_isSome]
  simp [all, name, eq_comm]

theorem resolve_of_recognized {argument : Option String} {systemName platform : String}
    (hmeant : Meant systemName argument platform) (h : platform ∈ ["Linux", "Windows", "Darwin"]) (strict : Bool) :
    resolve argument systemName strict = .ok platform :=
  resolve_eq_ok_iff.mpr ⟨named_of_meant hmeant, fun _ => ofName?_ne_none_iff.mpr h⟩

theorem resolve_of_permissive {argument : Option String} {systemName platform : String}
    (hmeant : Meant systemName argument platform) : resolve argument systemName false = .ok platform :=
  resolve_eq_ok_iff.mpr ⟨named_of_meant hmeant, nofun⟩

theorem resolve_of_refused {argument : Option String} {systemName platform : String}
    (hmeant : Meant systemName argument platform) (h : ofName? platform = none) :
    resolve argument systemName true = .error ⟨platform⟩ := by
  obtain rfl := named_of_meant hmeant
  simp [resolve, h]

end Platform

/-! ## Configurations -/

namespace Surroundings

/-- the file of the tables that are meant holds a text that is read as this value -/
def Configures (s : Surroundings) (disk : Disk) (explicit : Option String) (v : Value) : Prop :=
  ∃ path source text, s.tablesFile disk explicit = some (path, source) ∧
    disk.read [] (Path.absolute s.directoryPath path) = .ok text ∧ (s.reader text).value = .ok v

variable {s : Surroundings} {disk : Disk} {explicit : Option String} {v : Value}

theorem tables_of_configures (h : s.Configures disk explicit v) {m : Model} (hm : Model.ofValue v = .ok m) :
    ∃ t, s.tables disk explicit = .ok t ∧ t.model = m := by
  obtain ⟨path, source, text, hfile, hread, hvalue⟩ := h
  refine ⟨⟨m, path, source⟩, ?_, rfl⟩
  simp only [tables, hfile, load, hread, hvalue, hm]

/-- tables that were loaded are those of the value that the file holds -/
theorem ofValue_of_tables (h : s.Configures disk explicit v) {t : Loaded} (ht : s.tables disk explicit = .ok t) :
    Model.ofValue v = .ok t.model := by
  cases hm : Model.ofValue v with
  | ok m =>
    obtain ⟨t', ht', rfl⟩ := tables_of_configures h hm
    rw [Except.ok.inj (ht.symm.trans ht')]
  | error r =>
    obtain ⟨path, source, text, hfile, hread, hvalue⟩ := h
    simp only [tables, hfile, load, hread, hvalue, hm, reduceCtorEq] at ht

end Surroundings

/-- a log is told of as many events for every change -/
theorem Scope.length_events (c : Scope) (platform : String) : (c.events platform).length = 3 := rfl

namespace Run

open ChangeImpact.Action

/-! ## Computations -/

variable {s : Surroundings} {o : ComputeOptions} {disk : Disk} {platform : String}

/-- on a platform that is recognized strictness makes no difference -/
theorem compute_of_recognized (hmeant : Platform.Meant s.systemName o.platform platform)
    (h : platform ∈ ["Linux", "Windows", "Darwin"]) :
    compute s { o with strict := true } disk = compute s { o with strict := false } disk := by
  simp only [compute, computing, Platform.resolve_of_recognized hmeant h]

/-- any other platform is refused by a strict computation, which leaves everything alone -/
theorem compute_of_refused (hmeant : Platform.Meant s.systemName o.platform platform)
    (h : Platform.ofName? platform = none) :
    compute s { o with strict := true } disk = ⟨⟨[], [], disk, none⟩, some (Platform.Unknown.mk platform).failure⟩ :=
  compute_of_rejected (o := { o with strict := true }) (Platform.resolve_of_refused hmeant h)

/-- a computation that is not strict warns of its platform -/
theorem preface_of_permissive (hmeant : Platform.Meant s.systemName o.platform platform)
    (h : Platform.ofName? platform = none) :
    preface s (.compute { o with strict := false }) =
      "Warning: unknown platform \"" ++ platform ++ "\"; no platform exclusions applied." ++ "\n" := by
  obtain rfl := Platform.named_of_meant hmeant
  simp only [preface, h, and_self, if_true]

/-- a computation comes to its changed files on a disk that is alike, too, with other tables and for another platform -/
theorem Started.of_alike {plain later : Disk} {t other : Loaded} {log : Option Log} {known : String}
    {argument : Option String} {strict : Bool} (h : Started s o disk platform t log later) (halike : disk.Alike plain)
    (hresolved : Platform.resolve argument s.systemName strict = .ok known) (hloaded : s.tables plain o.config = .ok other) :
    ∃ later', later.Alike later' ∧ Started s { o with platform := argument, strict } plain known other log later' := by
  obtain ⟨made, hopened, hbegun⟩ := h.told
  obtain ⟨made', hmade, hopened'⟩ := Log.opened_of_alike halike hopened
  have hbeginning : [loadedEvent t.path].length = [loadedEvent other.path].length := rfl
  obtain ⟨later', hlater, hbegun'⟩ := Log.tellIfAny_of_alike log s.directory s.clock 0 hbeginning hmade hbegun
  exact ⟨later', hlater, hresolved, hloaded, made', hopened', hbegun'⟩

/-- A computation that comes to its result does so for any other platform and with any other tables, on a disk that is
alike: with the scope that the files have there. Git leaves the way to the log as it was. -/
theorem compute_alike {plain later last : Disk} {t other : Loaded} {log : Option Log} {call : Option Git.Call}
    {files : List String} {known : String} {argument : Option String} {strict : Bool}
    (hstarted : Started s o disk platform t log later) (hc : s.changedFiles later o.diff o.repo = (call, .ok files))
    (htold : Log.tellIfAny log s.directory s.clock 1 ((t.model.scope files platform).events platform)
      (s.afterCall call later) = (last, none))
    (hway : ∀ path c, o.logFile.bind Text.present? = some path → call = some c → s.KeepsWay c path)
    (halike : disk.Alike plain) (hresolved : Platform.resolve argument s.systemName strict = .ok known)
    (hloaded : s.tables plain o.config = .ok other) :
    ∃ last', compute s { o with platform := argument, strict } plain =
      completed s o.config known plain last' call
        (environmentLines o.json (other.model.scope files known).environment) := by
  obtain ⟨later', hlater, hstarted'⟩ := hstarted.of_alike halike hresolved hloaded
  have hc' : s.changedFiles later' o.diff o.repo = (call, .ok files) :=
    (s.changedFiles_of_alike hlater o.diff o.repo).symm.trans hc
  have hasked : ∀ l, log = some l →
      ∀ d, (s.afterCall call d).target? s.directory l.path = d.target? s.directory l.path := by
    intro l hl d
    cases call with
    | none => rfl
    | some c => exact hway l.path c (hstarted.path l hl) rfl d
  have htarget : ∀ l, log = some l →
      (s.afterCall call later).target? s.directory l.path = (s.afterCall call later').target? s.directory l.path := by
    intro l hl
    rw [hasked l hl, hasked l hl, Disk.target?_of_alike hlater]
  have hlength : ((t.model.scope files platform).events platform).length =
      ((other.model.scope files known).events known).length := by
    rw [Scope.length_events, Scope.length_events]
  have htrouble := @Log.isNone_tellIfAny log s.directory _ _ htarget s.clock 1 _ _ hlength
  rw [htold] at htrouble
  obtain ⟨last', htold'⟩ : ∃ last', Log.tellIfAny log s.directory s.clock 1 ((other.model.scope files known).events known)
      (s.afterCall call later') = (last', none) :=
    ⟨_, Prod.ext rfl (Option.isNone_iff_eq_none.mp htrouble.symm)⟩
  exact ⟨last', compute_of_finished hstarted' hc' htold'⟩

/-- such a computation asks git the same, whatever comes of its log -/
theorem call_of_alike {plain later : Disk} {t other : Loaded} {log : Option Log} {call : Option Git.Call}
    {files : List String} {known : String} {argument : Option String} {strict : Bool}
    (hstarted : Started s o disk platform t log later) (hc : s.changedFiles later o.diff o.repo = (call, .ok files))
    (halike : disk.Alike plain) (hresolved : Platform.resolve argument s.systemName strict = .ok known)
    (hloaded : s.tables plain o.config = .ok other) :
    (compute s { o with platform := argument, strict } plain).course.call = call := by
  obtain ⟨later', hlater, hstarted'⟩ := hstarted.of_alike halike hresolved hloaded
  exact hstarted'.call ((s.changedFiles_of_alike hlater o.diff o.repo).symm.trans hc)

/-- a computation that does not fail came to its changed files, told its log of their scope, and printed it -/
theorem finished_of_success (h : (compute s o disk).failure = none) :
    ∃ platform t log later call files last, Started s o disk platform t log later ∧
      s.changedFiles later o.diff o.repo = (call, .ok files) ∧
      Log.tellIfAny log s.directory s.clock 1 ((t.model.scope files platform).events platform) (s.afterCall call later) =
        (last, none) ∧
      compute s o disk = completed s o.config platform disk last call
        (environmentLines o.json (t.model.scope files platform).environment) := by
  obtain ⟨p, hrun, hends⟩ : ∃ p, compute s o disk = p ∧ Ends s o disk p := ⟨_, rfl, compute_ends s o disk⟩
  rw [hrun] at h ⊢
  cases hends with
  | finished hstarted hc htold => exact ⟨_, _, _, _, _, _, _, hstarted, hc, htold, rfl⟩
  | rejected | unloaded | unopened | untold | unlisted | unfinished => cases h

section Unexcluded

variable {plain : Disk} {v : Value} {known : String} {argument : Option String} {strict : Bool}

/-- A computation that succeeds on a platform that nobody knows has the same result on any other platform, known or not, when
the exclusions are taken out of its tables. -/
theorem compute_unexcluded (hresolved : Platform.resolve o.platform s.systemName o.strict = .ok platform)
    (h : Platform.ofName? platform = none) (hv : s.Configures disk o.config v)
    (hplain : s.Configures plain o.config (v.omitting Model.exclusionFields)) (halike : disk.Alike plain)
    (hknown : Platform.resolve argument s.systemName strict = .ok known)
    (hway : ∀ path c, o.logFile.bind Text.present? = some path → (compute s o disk).course.call = some c →
      s.KeepsWay c path)
    (hsuccess : (compute s o disk).failure = none) :
    ∃ last last' call lines, compute s o disk = completed s o.config platform disk last call lines ∧
      compute s { o with platform := argument, strict } plain = completed s o.config known plain last' call lines := by
  obtain ⟨unknown, t, log, later, call, files, last, hstarted, hc, htold, hcompute⟩ := finished_of_success hsuccess
  obtain rfl : platform = unknown := Except.ok.inj (hresolved.symm.trans hstarted.resolved)
  have hm : Model.ofValue v = .ok t.model := Surroundings.ofValue_of_tables hv hstarted.loaded
  obtain ⟨other, hloaded, hmodel⟩ := Surroundings.tables_of_configures hplain (Model.ofValue_omitting hm)
  rw [hcompute] at hway
  obtain ⟨last', hlast⟩ := compute_alike hstarted hc htold hway halike hknown hloaded
  rw [hmodel, t.model.scope_unexcluded h files known] at hlast
  exact ⟨last, last', call, _, hcompute, hlast⟩

/-- nor does it fail for another reason than the exclusions themselves -/
theorem success_of_unexcluded {m : Model} (hresolved : Platform.resolve o.platform s.systemName o.strict = .ok platform)
    (hv : s.Configures disk o.config v) (hm : Model.ofValue v = .ok m) (halike : disk.Alike plain)
    (hway : ∀ path c, o.logFile.bind Text.present? = some path → (compute s o disk).course.call = some c →
      s.KeepsWay c path)
    (hsuccess : (compute s { o with platform := argument, strict } plain).failure = none) :
    (compute s o disk).failure = none := by
  obtain ⟨known, t, log, later, call, files, last, hstarted, hc, htold, -⟩ := finished_of_success hsuccess
  obtain ⟨own, hloaded, -⟩ := Surroundings.tables_of_configures hv hm
  have hcall : (compute s o disk).course.call = call :=
    call_of_alike (o := { o with platform := argument, strict }) hstarted hc halike.symm hresolved hloaded
  rw [hcall] at hway
  obtain ⟨last', hlast⟩ := compute_alike (o := { o with platform := argument, strict }) hstarted hc htold hway halike.symm
    hresolved hloaded
  exact congrArg Progress.failure hlast

end Unexcluded

/-! ## Runs -/

/-- **Strictness about the platform only rejects.** For all tables, inputs and arguments: on Linux, Windows and Darwin a run is
the same with and without it. Any other platform is refused by a strict run as an error of the input, the same one whatever
is on the disk, which it leaves as it was, and without a call to git. A run that is not strict gives one warning instead,
and then at most one report. When it succeeds, so does a run on each of the three platforms with the same tables without
their exclusions, on a disk on which otherwise the same things stand: with the same output, and without a warning. When that
run succeeds and the tables are accepted with their exclusions, nothing else makes the first one fail. If git is asked at all,
it leaves the way to the log as it was. -/
theorem strict_only_rejects (s : Surroundings) (disk : Disk) (words others : List String) (debug : Bool) (o : ComputeOptions)
    (hstrict : parse words = .ok (.request debug (.compute { o with strict := true })))
    (hpermissive : parse others = .ok (.request debug (.compute { o with strict := false }))) :
    ∃ platform, Platform.Meant s.systemName o.platform platform ∧
      (platform ∈ ["Linux", "Windows", "Darwin"] → run s disk words = run s disk others) ∧
      (platform ∉ ["Linux", "Windows", "Darwin"] →
        (∃ f : Failure, f.report.code = "INPUT_ERROR" ∧
          ∀ (s' : Surroundings) (disk' : Disk), s'.systemName = s.systemName →
            run s' disk' words = ⟨[⟨.errors, s'.report debug f⟩], 1, disk', none, []⟩) ∧
        (∃ report, (run s disk others).stderr =
            "Warning: unknown platform \"" ++ platform ++ "\"; no platform exclusions applied." ++ "\n" ++ report ∧
          (((run s disk others).exit = 0 ∧ report = "") ∨
            (run s disk others).exit = 1 ∧ ∃ f : Failure, report = s.report debug f)) ∧
        ∀ (plain : Disk) (v : Value) (known : Platform) (argument : Option String) (strict : Bool) (third : List String),
          s.Configures disk o.config v →
          s.Configures plain o.config (v.omitting ["exclusions", "dependent_exclusions"]) →
          disk.Alike plain →
          Platform.Meant s.systemName argument known.name →
          parse third = .ok (.request debug (.compute { o with platform := argument, strict })) →
          (∀ path c, o.logFile.bind Text.present? = some path → (run s disk others).call = some c → s.KeepsWay c path) →
          ((run s disk others).exit = 0 →
            (run s plain third).exit = 0 ∧ (run s plain third).stderr = "" ∧
              (run s plain third).stdout = (run s disk others).stdout) ∧
          ((∃ m, Model.ofValue v = .ok m) → (run s plain third).exit = 0 → (run s disk others).exit = 0)) := by
  let platform := Platform.named o.platform s.systemName
  have hmeant : Platform.Meant s.systemName o.platform platform := Platform.meant_named _ _
  refine ⟨platform, hmeant, fun hknown => ?_, fun hunknown => ?_⟩
  · rw [run_of_parse hstrict, run_of_parse hpermissive, compute_of_recognized hmeant hknown]
  have hnone : Platform.ofName? platform = none := by
    by_contra hsome
    exact hunknown (Platform.ofName?_ne_none_iff.mp hsome)
  refine ⟨⟨(Platform.Unknown.mk platform).failure, rfl, ?_⟩, ?_, ?_⟩
  · intro s' disk' hsystem
    rw [run_of_parse hstrict, compute_of_refused (hsystem ▸ hmeant) hnone]
    rfl
  · rw [run_of_parse hpermissive]
    have hend := stderr_of_settles (settles_compute s { o with strict := false } disk) debug
    rw [preface_of_permissive hmeant hnone] at hend
    rw [Progress.exit_outcome]
    rcases hend with ⟨hsuccess, hquiet⟩ | ⟨f, hfailed, -, hreported⟩
    · refine ⟨"", by rw [hquiet, String.append_empty], .inl ⟨?_, rfl⟩⟩
      rw [hsuccess]
      rfl
    · refine ⟨s.report debug f, hreported, .inr ⟨?_, f, rfl⟩⟩
      rw [hfailed]
      rfl
  · intro plain v known argument strict third hv hplain halike hother hthird hway
    have hpermitted := Platform.resolve_of_permissive hmeant
    have hresolved : Platform.resolve argument s.systemName strict = .ok known.name := by
      apply Platform.resolve_of_recognized hother
      cases known <;> decide
    have hquiet : platformWarnings known.name = [] := by simp [platformWarnings]
    rw [run_of_parse hpermissive, Progress.call_outcome] at hway
    rw [run_of_parse hpermissive, run_of_parse hthird, Progress.exit_outcome, Progress.exit_outcome]
    have hzero : ∀ p : Progress, (if p.failure.isNone then 0 else 1) = 0 ↔ p.failure = none := by
      intro p
      cases p.failure <;> simp
    rw [hzero, hzero]
    constructor
    · intro hsuccess
      obtain ⟨last, last', call, lines, hcompute, hsame⟩ := compute_unexcluded (o := { o with strict := false }) hpermitted
        hnone hv hplain halike hresolved hway hsuccess
      rw [hcompute, hsame, Progress.stdout_outcome, Progress.stdout_outcome]
      refine ⟨rfl, ?_, ?_⟩
      · simp only [Progress.outcome, Outcome.stderr, completed, errors_of_warned, hquiet]
        rfl
      · simp only [completed, output_of_warned]
    · rintro ⟨m, hm⟩ hsuccess
      exact success_of_unexcluded (o := { o with strict := false }) hpermitted hv hm halike hway hsuccess

/-- an argument with blanks around it, on a host whose own platform excludes the only project -/
theorem strict_only_rejects_blanks :
    let tables := "projects: [llvm]\ncheck_targets: \x7bllvm: check-llvm\x7d\nexclusions: \x7bLinux: [llvm]\x7d\n"
    let disk : Disk := ⟨[(["work"], .folder), (["work", "tables.yaml"], .file tables)]⟩
    let plain : Disk := ⟨[(["work"], .folder),
      (["work", "tables.yaml"], .file "projects: [llvm]\ncheck_targets: \x7bllvm: check-llvm\x7d\n")]⟩
    let s := { printingTwo with input := [.text "llvm/a.c\n"] }
    let others := ["compute", " linux ", "--config", "tables.yaml"]
    let words := others ++ ["--strict-platform"]
    (run s disk words).exit = 1 ∧ (run s disk words).disk = disk ∧ (run s disk others).exit = 0 ∧
    (run s plain ["compute", "--config", "tables.yaml"]).stdout = (run s disk others).stdout := by
  intro tables disk plain s others words
  let o : ComputeOptions := ⟨some " linux ", none, none, some "tables.yaml", none, false, false⟩
  have hstrict : parse words = .ok (.request false (.compute { o with strict := true })) :=
    parse_eq_of_toOption (by decide +kernel)
  have hpermissive : parse others = .ok (.request false (.compute { o with strict := false })) :=
    parse_eq_of_toOption (by decide +kernel)
  have hhost : parse ["compute", "--config", "tables.yaml"] =
      .ok (.request false (.compute { o with platform := none, strict := false })) := parse_eq_of_toOption (by decide +kernel)
  let v : Value := .object [("projects", .array [.string "llvm"]),
    ("check_targets", .object [("llvm", .string "check-llvm")]), ("exclusions", .object [("Linux", .array [.string "llvm"])])]
  have hv : Surroundings.readTables tables = .ok v := eq_ok_of_toOption (by decide +kernel)
  have hplain : Surroundings.readTables "projects: [llvm]\ncheck_targets: \x7bllvm: check-llvm\x7d\n" =
      .ok (v.omitting ["exclusions", "dependent_exclusions"]) := eq_ok_of_toOption (by decide +kernel)
  have hgiven : givenPath? s.directoryPath o.config s.configPath = some ("/work/tables.yaml", .explicit) := by decide +kernel
  have hfile : ∀ d, s.tablesFile d o.config = some ("/work/tables.yaml", .explicit) := by
    intro d
    rw [Surroundings.tablesFile, findTables, hgiven]
    rfl
  have hpath : Path.absolute s.directoryPath "/work/tables.yaml" = "/work/tables.yaml" := by decide +kernel
  have hread : ∀ text, (⟨[(["work"], .folder), (["work", "tables.yaml"], .file text)]⟩ : Disk).read []
      (Path.absolute s.directoryPath "/work/tables.yaml") = .ok text := by
    intro text
    rw [hpath]
    rfl
  have hreader : ∀ text, (s.reader text).value = Surroundings.readTables text := fun _ => rfl
  have hconfigured : s.Configures disk o.config v :=
    ⟨"/work/tables.yaml", .explicit, tables, hfile disk, hread tables, (hreader tables).trans hv⟩
  have hunexcluded : s.Configures plain o.config (v.omitting ["exclusions", "dependent_exclusions"]) :=
    ⟨"/work/tables.yaml", .explicit, _, hfile plain, hread _, (hreader _).trans hplain⟩
  have halike : disk.Alike plain :=
    Disk.put_of_alike (Disk.Alike.refl ⟨[(["work"], .folder)]⟩) (List.cons_ne_nil "work" ["tables.yaml"]) (.file _ _)
  have hexit : (run s disk others).exit = 0 := by decide +kernel
  have hsilent : ∀ path c, o.logFile.bind Text.present? = some path → (run s disk others).call = some c →
      s.KeepsWay c path := by
    intro path c hlog
    cases hlog
  obtain ⟨platform, hmeant, -, hunknown⟩ := strict_only_rejects s disk words others false o hstrict hpermissive
  obtain rfl : "linux" = platform := by
    rw [← Platform.named_of_meant hmeant]
    decide
  obtain ⟨⟨f, -, hrefused⟩, -, hsame⟩ := hunknown (by decide)
  obtain ⟨-, -, hstdout⟩ := (hsame plain v .linux none false ["compute", "--config", "tables.yaml"] hconfigured
    hunexcluded halike .missing hhost hsilent).1 hexit
  rw [hrefused s disk rfl]
  exact ⟨rfl, rfl, hexit, hstdout⟩

end Run

end ChangeImpact
