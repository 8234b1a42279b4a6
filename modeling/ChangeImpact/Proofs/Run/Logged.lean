/-
What runs write.

A run writes to one file at most, the log that `compute` is given, and only at its end. `Writes` says what
a single run does to a disk: where its log goes decides which text may change (`LogsTo`), and how far the
run comes decides how many records are added (`Recorded`). Runs that follow each other on one disk add up:
what every step keeps, the whole sequence keeps.

A run that lists the changes of a range asks git, and what git writes then is not the run's. A file is
`Undisturbed` by a run if git leaves its text as it was, and does not lead the log elsewhere; what is said
about a file after a run that asked git is said under this condition.

Results:
- `logging_compute`: the disks that a computation passes.
- `text?_compute`, `kept_compute`, `disk_of_absent`: what it does not write.
- `recorded_compute`: what it adds to the file that its log goes to.
- `compute_of_input`: whether there is a log does not decide what is printed.
- `sequence_writes_logs`: all of it for the runs of a sequence.
-/
import ChangeImpact.Proofs.Run.Records

namespace ChangeImpact

open ChangeImpact.Text

namespace Disk

/-- a path can be opened for additions: the folders above it can be made, and it then leads to the file at a place -/
def Opens (d : Disk) (directory : Location) (path : String) (place : Location) : Prop :=
  ∃ made, d.makeFolders directory (Path.parent path) = .ok made ∧ made.target? directory path = some place

end Disk

/-! ## A log, if there is one -/

namespace Log

section

variable {log : Option Log} {path : Option String} {context : List (String × Value)} {directory place : Location}
  {d made : Disk}

theorem opened_of_absent (h : path.bind present? = none) : opened path context directory d = .ok (none, d) := by
  simp only [opened, h]

theorem opened_of_present {p : String} (h : path.bind present? = some p)
    (hmade : d.makeFolders directory (Path.parent p) = .ok made) :
    opened path context directory d = .ok (some ⟨p, context⟩, made) := by
  simp only [opened, h, prepare, hmade, Except.map]

/-- what is told to the log does not go to the file at a place -/
def Misses (log : Option Log) (directory : Location) (d : Disk) (place : Location) : Prop :=
  ∀ l, log = some l → d.target? directory l.path ≠ some place

theorem misses_of_opened (h : opened path context directory d = .ok (log, made))
    (hother : ∀ p, path.bind present? = some p → ¬ d.Opens directory p place) :
    made.text? place = d.text? place ∧ Misses log directory made place := by
  rcases opened_cases h with ⟨-, rfl, rfl⟩ | ⟨p, hp, rfl, hmade⟩
  · exact ⟨rfl, nofun⟩
  · refine ⟨Disk.text?_makeFolders hmade place, fun l hl htarget => ?_⟩
    obtain rfl := Option.some.inj hl
    exact hother p hp ⟨made, hmade, htarget⟩

theorem Misses.told (h : Misses log directory d place) {clock : Nat → Instant} {n : Nat} {es : List Event} {last : Disk}
    {trouble : Option DiskError} (htold : tellIfAny log directory clock n es d = (last, trouble)) :
    last.text? place = d.text? place ∧ Misses log directory last place := by
  cases log with
  | none =>
    obtain ⟨rfl, -⟩ := Prod.mk.inj htold
    exact ⟨rfl, nofun⟩
  | some l =>
    have htext := text?_tell (h l rfl) clock n es
    have hstays := target?_tell l directory clock n es d
    rw [show l.tell directory clock n es d = (last, trouble) from htold] at htext hstays
    refine ⟨htext, fun l' hl => ?_⟩
    obtain rfl := Option.some.inj hl
    exact fun htarget => h l rfl (hstays.symm.trans htarget)

end

end Log

namespace Run

open ChangeImpact.Action

/-! ## What git leaves alone -/

/-- the path of the log that a command line names -/
def logPath? (words : List String) : Option String :=
  match parse words with
  | .ok (.request _ (.compute o)) => o.logFile.bind present?
  | _ => none

/-- a call to git, if there is one, leaves the text at a place as it was, and the way to a log as well -/
structure Spares (s : Surroundings) (call : Option Git.Call) (log : Option String) (place : Location) : Prop where
  text : ∀ c, call = some c → s.KeepsText c place
  way : ∀ c path, call = some c → log = some path → s.KeepsWay c path

theorem Spares.afterCall {s : Surroundings} {call : Option Git.Call} {log : Option String} {place : Location}
    (h : Spares s call log place) (d : Disk) :
    (s.afterCall call d).text? place = d.text? place ∧
      ∀ path, log = some path → (s.afterCall call d).target? s.directory path = d.target? s.directory path := by
  cases call with
  | none => exact ⟨rfl, fun _ _ => rfl⟩
  | some c => exact ⟨h.text c rfl d, fun path hpath => h.way c path rfl hpath d⟩

/-! ## The disks that a computation passes -/

section Logging

variable {s : Surroundings} {o : ComputeOptions} {disk d : Disk} {call : Option Git.Call} {log : Option Log}
  {place : Location}

/-- the disks that a computation leaves when it has opened its log, whenever it has told it of events, and when it has asked
git, which it does with one call at most -/
inductive Logging (s : Surroundings) (o : ComputeOptions) (disk : Disk) (call : Option Git.Call) :
    Option Log → Disk → Prop
  | opened {log : Option Log} {made : Disk} (h : Log.opened o.logFile logContext s.directory disk = .ok (log, made)) :
    Logging s o disk call log made
  | told {log : Option Log} {d last : Disk} {n : Nat} {es : List Event} {trouble : Option DiskError}
      (h : Logging s o disk call log d) (htold : Log.tellIfAny log s.directory s.clock n es d = (last, trouble)) :
    Logging s o disk call log last
  | asked {log : Option Log} {d : Disk} (h : Logging s o disk call log d) : Logging s o disk call log (s.afterCall call d)

theorem Started.logging {platform : String} {t : Loaded} {later : Disk} (h : Started s o disk platform t log later)
    (call : Option Git.Call) : Logging s o disk call log later := by
  obtain ⟨made, hl, htold⟩ := h.told
  exact (Logging.opened hl).told htold

/-- a computation ends before it has a log, or on a disk that its log or git has left -/
theorem logging_compute (s : Surroundings) (o : ComputeOptions) (disk : Disk) :
    (compute s o disk).course.disk = disk ∨
      ∃ log, Logging s o disk (compute s o disk).course.call log (compute s o disk).course.disk := by
  obtain ⟨p, hrun, hends⟩ : ∃ p, compute s o disk = p ∧ Ends s o disk p := ⟨_, rfl, compute_ends s o disk⟩
  rw [hrun]
  cases hends with
  | rejected => exact .inl rfl
  | unloaded => exact .inl rfl
  | unopened => exact .inl rfl
  | untold _ _ hl htold => exact .inr ⟨_, (Logging.opened hl).told htold⟩
  | unlisted h => exact .inr ⟨_, (h.logging _).asked⟩
  | unfinished h _ htold => exact .inr ⟨_, (h.logging _).asked.told htold⟩
  | finished h _ htold => exact .inr ⟨_, (h.logging _).asked.told htold⟩

theorem Logging.grows (h : Logging s o disk call log d) (hcall : call = none) : disk.Grows d := by
  induction h with
  | opened hl => exact Log.opened_grows hl
  | told _ htold ih => exact ih.trans (Log.grows_of_told htold)
  | asked _ ih =>
    subst hcall
    exact ih

/-- what a file holds stays the beginning of what it holds -/
theorem Logging.kept (h : Logging s o disk call log d) {path : Option String} (hspared : Spares s call path place)
    {text : String} (htext : disk.text? place = some text) : ∃ added, d.text? place = some (text ++ added) := by
  have hgrown : ∀ {d d' : Disk}, d.Grows d' → (∃ added, d.text? place = some (text ++ added)) →
      ∃ added, d'.text? place = some (text ++ added) := by
    rintro d d' hgrows ⟨added, hadded⟩
    obtain ⟨more, hmore⟩ := hgrows.files place _ (Disk.standing?_of_text? hadded)
    refine ⟨added ++ more, ?_⟩
    rw [Disk.text?, hmore, String.append_assoc]
  induction h with
  | opened hl => exact hgrown (Log.opened_grows hl) ⟨"", by rw [htext, String.append_empty]⟩
  | told _ htold ih => exact hgrown (Log.grows_of_told htold) ih
  | @asked d _ ih =>
    rw [(hspared.afterCall d).1]
    exact ih

theorem Logging.misses (h : Logging s o disk call log d) (hspared : Spares s call (o.logFile.bind present?) place)
    (hother : ∀ path, o.logFile.bind present? = some path → ¬ disk.Opens s.directory path place) :
    d.text? place = disk.text? place ∧ (∀ l, log = some l → o.logFile.bind present? = some l.path) ∧
      Log.Misses log s.directory d place := by
  induction h with
  | opened hl =>
    obtain ⟨htext, hmisses⟩ := Log.misses_of_opened hl hother
    exact ⟨htext, fun l hlog => path_of_opened (hlog ▸ hl), hmisses⟩
  | told _ htold ih =>
    obtain ⟨htext, hpath, hmisses⟩ := ih
    obtain ⟨htext', hmisses'⟩ := hmisses.told htold
    exact ⟨htext'.trans htext, hpath, hmisses'⟩
  | @asked d _ ih =>
    obtain ⟨htext, hpath, hmisses⟩ := ih
    obtain ⟨hsame, hway⟩ := hspared.afterCall d
    refine ⟨hsame.trans htext, hpath, fun l hl htarget => hmisses l hl ?_⟩
    rw [← hway l.path (hpath l hl)]
    exact htarget

theorem Logging.eq_of_absent (h : Logging s o disk call log d) (habsent : o.logFile.bind present? = none)
    (hreads : ∀ c, call = some c → s.OnlyReads c) : log = none ∧ d = disk := by
  induction h with
  | opened hl =>
    rw [Log.opened_of_absent habsent] at hl
    obtain ⟨rfl, rfl⟩ := Prod.mk.inj (Except.ok.inj hl)
    exact ⟨rfl, rfl⟩
  | told _ htold ih =>
    obtain ⟨rfl, rfl⟩ := ih
    obtain ⟨rfl, -⟩ := Prod.mk.inj htold
    exact ⟨rfl, rfl⟩
  | asked _ ih =>
    obtain ⟨rfl, rfl⟩ := ih
    cases call with
    | none => exact ⟨rfl, rfl⟩
    | some c => exact ⟨rfl, hreads c rfl _⟩

/-! ## What a computation does not write -/

theorem compute_grows (hcall : (compute s o disk).course.call = none) : disk.Grows (compute s o disk).course.disk := by
  rcases logging_compute s o disk with h | ⟨log, h⟩
  · rw [h]
    exact .refl disk
  · exact h.grows hcall

/-- a computation changes no file but the one that its log goes to -/
theorem text?_compute (hspared : Spares s (compute s o disk).course.call (o.logFile.bind present?) place)
    (hother : ∀ path, o.logFile.bind present? = some path → ¬ disk.Opens s.directory path place) :
    (compute s o disk).course.disk.text? place = disk.text? place := by
  rcases logging_compute s o disk with h | ⟨log, h⟩
  · rw [h]
  · exact (h.misses hspared hother).1

theorem kept_compute {path : Option String} (hspared : Spares s (compute s o disk).course.call path place) {text : String}
    (htext : disk.text? place = some text) :
    ∃ added, (compute s o disk).course.disk.text? place = some (text ++ added) := by
  rcases logging_compute s o disk with h | ⟨log, h⟩
  · exact ⟨"", by rw [h, htext, String.append_empty]⟩
  · exact h.kept hspared htext

theorem disk_of_absent (habsent : o.logFile.bind present? = none)
    (hreads : ∀ c, (compute s o disk).course.call = some c → s.OnlyReads c) : (compute s o disk).course.disk = disk := by
  rcases logging_compute s o disk with h | ⟨log, h⟩
  · exact h
  · exact (h.eq_of_absent habsent hreads).2

end Logging

/-! ## What a computation adds to its log -/

section Recorded

variable {s : Surroundings} {o : ComputeOptions} {disk : Disk} {path : String} {place : Location} {platform : String}
  {t : Loaded} {call : Option Git.Call} {files : List String}

/-- a computation whose log can be opened comes to its changed files once the tables are there -/
theorem started_of_opens (hp : Platform.resolve o.platform s.systemName o.strict = .ok platform)
    (ht : s.tables disk o.config = .ok t) (hpath : o.logFile.bind present? = some path)
    (hopens : disk.Opens s.directory path place) :
    ∃ later, Started s o disk platform t (some ⟨path, logContext⟩) later ∧
      later.target? s.directory path = some place ∧
      disk.Added later place (Log.linesFrom logContext s.clock 0 [loadedEvent t.path]) := by
  obtain ⟨made, hmade, htarget⟩ := hopens
  obtain ⟨later, htell, hstays, hadded⟩ :=
    Log.tell_of_target ⟨path, logContext⟩ htarget s.clock 0 (loadedEvent t.path) []
  refine ⟨later, ⟨hp, ht, made, Log.opened_of_present hpath hmade, htell⟩, hstays, ?_⟩
  exact hadded.of_text? (Disk.text?_makeFolders hmade)

/-- a computation whose files are listed tells its log of their scope, if git leads it to the same file -/
theorem compute_of_listed {later : Disk} (h : Started s o disk platform t (some ⟨path, logContext⟩) later)
    (htarget : (s.afterCall call later).target? s.directory path = some place)
    (hc : s.changedFiles later o.diff o.repo = (call, .ok files)) :
    ∃ last, compute s o disk = completed s o.config platform disk last call
        (environmentLines o.json (t.model.scope files platform).environment) ∧
      (s.afterCall call later).Added last place
        (Log.linesFrom logContext s.clock 1 ((t.model.scope files platform).events platform)) := by
  obtain ⟨last, htell, -, hscope⟩ := Log.tell_of_target ⟨path, logContext⟩ htarget s.clock 1 _ _
  exact ⟨last, compute_of_finished h hc htell, hscope⟩

/-- how far a computation comes decides how many records are added to the file that its log goes to -/
structure Recorded (s : Surroundings) (o : ComputeOptions) (found : Disk) (place : Location) (out : Outcome) : Prop where
  rejected : ∀ u, Platform.resolve o.platform s.systemName o.strict = .error u → out.exit = 1 ∧ out.disk = found
  unloaded : ∀ e, s.tables found o.config = .error e → out.exit = 1 ∧ out.disk = found
  /-- with its tables a computation adds a record of them; then it lists the files, on a disk that has only grown -/
  loaded : ∀ platform t, Platform.resolve o.platform s.systemName o.strict = .ok platform →
    s.tables found o.config = .ok t → ∃ asked first, found.Grows asked ∧
      Notes s 0 "config.loaded" [("path", .string t.path)] first ∧
      (∀ call f, s.changedFiles asked o.diff o.repo = (call, .error f) →
        out.exit = 1 ∧ out.disk.text? place = some ((found.text? place).getD "" ++ first)) ∧
      ∀ call files, s.changedFiles asked o.diff o.repo = (call, .ok files) →
        ∃ e added, e = (t.model.scope files platform).environment ∧ out.exit = 0 ∧ Shows e o.json out.stdout ∧
          ScopeTold s t.model platform files e added ∧
          out.disk.text? place = some ((found.text? place).getD "" ++ first ++ added)

theorem recorded_compute (hpath : o.logFile.bind present? = some path) (hopens : disk.Opens s.directory path place)
    (hspared : Spares s (compute s o disk).course.call (o.logFile.bind present?) place) (debug : Bool) :
    Recorded s o disk place ((compute s o disk).outcome s debug) where
  rejected := by
    intro u hu
    rw [compute_of_rejected hu]
    exact ⟨rfl, rfl⟩
  unloaded := by
    intro e he
    cases hp : Platform.resolve o.platform s.systemName o.strict with
    | error u =>
      rw [compute_of_rejected hp]
      exact ⟨rfl, rfl⟩
    | ok platform =>
      rw [compute_of_unloaded hp he]
      exact ⟨rfl, rfl⟩
  loaded := by
    intro platform t hp ht
    obtain ⟨later, hstarted, htarget, hadded⟩ := started_of_opens hp ht hpath hopens
    refine ⟨later, _, hstarted.grows, notes_loaded s t.path, ?_, ?_⟩
    · intro call f hc
      have hcompute := compute_of_unlisted hstarted hc
      rw [hcompute] at hspared ⊢
      refine ⟨rfl, ?_⟩
      rw [Progress.disk_outcome]
      exact (hspared.afterCall later).1.trans hadded.there
    · intro call files hc
      rw [hstarted.call hc] at hspared
      obtain ⟨htext, hway⟩ := hspared.afterCall later
      obtain ⟨last, hcompute, hscope⟩ := compute_of_listed hstarted ((hway path hpath).trans htarget) hc
      refine ⟨_, _, rfl, ?_, ?_, scopeTold_lines s t.model platform files, ?_⟩
      · rw [hcompute]
        rfl
      · rw [hcompute, Progress.stdout_outcome]
        simp only [completed, output_of_warned]
        exact shows_environment _ o.json
      · rw [hcompute, Progress.disk_outcome]
        exact hscope.there.trans (by rw [htext, hadded.there, Option.getD_some])

/-! ## What is printed with and without a log -/

/-- a computation of files from the input whose log can be opened, if it has one, comes to its result -/
theorem compute_of_input (hp : Platform.resolve o.platform s.systemName o.strict = .ok platform)
    (ht : s.tables disk o.config = .ok t) (hinput : o.diff.filter (· ≠ "") = none)
    (hopens : ∀ path, o.logFile.bind present? = some path → ∃ place, disk.Opens s.directory path place) :
    ∃ last, compute s o disk = completed s o.config platform disk last none
      (environmentLines o.json (t.model.scope s.inputLines platform).environment) := by
  have hc : ∀ d, s.changedFiles d o.diff o.repo = (none, .ok s.inputLines) := by
    intro d
    simp only [Surroundings.changedFiles, hinput]
  cases hpath : o.logFile.bind present? with
  | none =>
    have hstarted : Started s o disk platform t none disk := ⟨hp, ht, disk, Log.opened_of_absent hpath, rfl⟩
    exact ⟨disk, compute_of_finished hstarted (hc disk) rfl⟩
  | some path =>
    obtain ⟨place, hopens⟩ := hopens path hpath
    obtain ⟨later, hstarted, htarget, -⟩ := started_of_opens hp ht hpath hopens
    have hstays : (s.afterCall none later).target? s.directory path = some place := htarget
    obtain ⟨last, hlast, -⟩ := compute_of_listed hstarted hstays (hc later)
    exact ⟨last, hlast⟩

theorem outcome_without_log (hinput : o.diff.filter (· ≠ "") = none)
    (hopens : ∀ path, o.logFile.bind present? = some path → ∃ place, disk.Opens s.directory path place) (debug : Bool) :
    let logged := (compute s o disk).outcome s debug
    let plain := (compute s { o with logFile := none } disk).outcome s debug
    logged.stdout = plain.stdout ∧ logged.stderr = plain.stderr ∧ logged.exit = plain.exit := by
  intro logged plain
  -- a run that ends before it opens its log is the same run without one
  have hsame : compute s o disk = compute s { o with logFile := none } disk → logged = plain :=
    congrArg fun p => Progress.outcome p s debug
  cases hp : Platform.resolve o.platform s.systemName o.strict with
  | error u =>
    have hplain : compute s { o with logFile := none } disk = ⟨⟨[], [], disk, none⟩, some u.failure⟩ :=
      compute_of_rejected hp
    rw [hsame ((compute_of_rejected hp).trans hplain.symm)]
    exact ⟨rfl, rfl, rfl⟩
  | ok platform =>
  cases ht : s.tables disk o.config with
  | error e =>
    have hplain := compute_of_unloaded (o := { o with logFile := none }) hp ht
    rw [hsame ((compute_of_unloaded hp ht).trans hplain.symm)]
    exact ⟨rfl, rfl, rfl⟩
  | ok t =>
    obtain ⟨last, hlogged⟩ := compute_of_input hp ht hinput hopens
    obtain ⟨last', hplain⟩ := compute_of_input (o := { o with logFile := none }) hp ht hinput nofun
    simp only [logged, plain, hlogged, hplain, completed, begun, Progress.outcome, Outcome.stdout, Outcome.stderr, and_self]

end Recorded

/-! ## Runs -/

/-- the log that a command line names goes to the file at a place -/
def LogsTo (s : Surroundings) (found : Disk) (words : List String) (place : Location) : Prop :=
  ∃ path, logPath? words = some path ∧ found.Opens s.directory path place

/-- when a run asked git, git left the text at a place as it was, and did not lead the log of the run elsewhere -/
def Undisturbed (s : Surroundings) (words : List String) (out : Outcome) (place : Location) : Prop :=
  Spares s out.call (logPath? words) place

/-- what a run writes, and that its log does not decide what it prints -/
structure Writes (s : Surroundings) (found : Disk) (words : List String) (out : Outcome) : Prop where
  grows : out.call = none → found.Grows out.disk
  kept : ∀ place text, Undisturbed s words out place → found.text? place = some text →
    ∃ added, out.disk.text? place = some (text ++ added)
  others : ∀ place, Undisturbed s words out place → ¬ LogsTo s found words place →
    out.disk.text? place = found.text? place
  nothing : logPath? words = none → (∀ call, out.call = some call → s.OnlyReads call) → out.disk = found
  recorded : ∀ debug o place, parse words = .ok (.request debug (.compute o)) → LogsTo s found words place →
    Undisturbed s words out place → Recorded s o found place out
  answered : ∀ debug o others, parse words = .ok (.request debug (.compute o)) → o.diff.filter (· ≠ "") = none →
    (∀ path, logPath? words = some path → ∃ place, LogsTo s found words place) →
    parse others = .ok (.request debug (.compute { o with logFile := none })) →
    out.stdout = (run s found others).stdout ∧ out.stderr = (run s found others).stderr ∧
      out.exit = (run s found others).exit

theorem logPath?_of_parse {words : List String} {debug : Bool} {o : ComputeOptions}
    (h : parse words = .ok (.request debug (.compute o))) : logPath? words = o.logFile.bind present? := by
  simp only [logPath?, h]

theorem opens_of_logsTo {s : Surroundings} {found : Disk} {words : List String} {place : Location} {debug : Bool}
    {o : ComputeOptions} (hparse : parse words = .ok (.request debug (.compute o))) (h : LogsTo s found words place) :
    ∃ path, o.logFile.bind present? = some path ∧ found.Opens s.directory path place := by
  obtain ⟨path, hpath, hopens⟩ := h
  exact ⟨path, (logPath?_of_parse hparse).symm.trans hpath, hopens⟩

theorem projects_disk (s : Surroundings) (config : Option String) (files : List String) (disk : Disk) :
    (projects s config files disk).course.disk = disk := by
  cases ht : s.tables disk config with
  | error e => rw [projects_of_unloaded ht]
  | ok t => rw [projects_of_loaded ht]

theorem check_disk (s : Surroundings) (config : Option String) (disk : Disk) : (check s config disk).course.disk = disk := by
  cases ht : s.tables disk config with
  | error e => rw [check_of_unloaded ht]
  | ok t => rw [check_of_loaded ht]

/-- a run that computes nothing leaves the disk as it was -/
theorem disk_run (s : Surroundings) (found : Disk) (words : List String) :
    (run s found words).disk = found ∨ ∃ debug o, parse words = .ok (.request debug (.compute o)) ∧
      run s found words = (compute s o found).outcome s debug := by
  unfold run
  split
  · exact .inl rfl
  · exact .inl rfl
  · next debug r hparse =>
    cases r with
    | compute o => exact .inr ⟨debug, o, hparse, rfl⟩
    | projects config files => exact .inl ((Progress.disk_outcome _ s debug).trans (projects_disk s config files found))
    | check config => exact .inl ((Progress.disk_outcome _ s debug).trans (check_disk s config found))

/-- what a run left undisturbed that was a computation -/
theorem spares_of_undisturbed {s : Surroundings} {found : Disk} {words : List String} {place : Location} {debug : Bool}
    {o : ComputeOptions} (hparse : parse words = .ok (.request debug (.compute o)))
    (h : Undisturbed s words ((compute s o found).outcome s debug) place) :
    Spares s (compute s o found).course.call (o.logFile.bind present?) place := by
  rw [Undisturbed, logPath?_of_parse hparse, Progress.call_outcome] at h
  exact h

theorem writes_run (s : Surroundings) (found : Disk) (words : List String) : Writes s found words (run s found words) where
  grows := by
    intro hcall
    rcases disk_run s found words with h | ⟨debug, o, -, h⟩
    · rw [h]
      exact .refl found
    · rw [h, Progress.call_outcome] at hcall
      rw [h, Progress.disk_outcome]
      exact compute_grows hcall
  kept := by
    intro place text hundisturbed htext
    rcases disk_run s found words with h | ⟨debug, o, hparse, h⟩
    · exact ⟨"", by rw [h, htext, String.append_empty]⟩
    · rw [h] at hundisturbed ⊢
      rw [Progress.disk_outcome]
      exact kept_compute (spares_of_undisturbed hparse hundisturbed) htext
  others := by
    intro place hundisturbed hplace
    rcases disk_run s found words with h | ⟨debug, o, hparse, h⟩
    · rw [h]
    · rw [h] at hundisturbed ⊢
      rw [Progress.disk_outcome]
      refine text?_compute (spares_of_undisturbed hparse hundisturbed) fun path hpath hopens => hplace ⟨path, ?_, hopens⟩
      exact (logPath?_of_parse hparse).trans hpath
  nothing := by
    intro habsent hreads
    rcases disk_run s found words with h | ⟨debug, o, hparse, h⟩
    · exact h
    · rw [h, Progress.call_outcome] at hreads
      rw [h, Progress.disk_outcome]
      exact disk_of_absent ((logPath?_of_parse hparse).symm.trans habsent) hreads
  recorded := by
    intro debug o place hparse hlogs hundisturbed
    obtain ⟨path, hpath, hopens⟩ := opens_of_logsTo hparse hlogs
    rw [run_of_parse hparse] at hundisturbed ⊢
    exact recorded_compute hpath hopens (spares_of_undisturbed hparse hundisturbed) debug
  answered := by
    intro debug o others hparse hinput hlogs hothers
    rw [run_of_parse hparse, run_of_parse hothers]
    refine outcome_without_log hinput ?_ debug
    intro path hpath
    obtain ⟨place, hplace⟩ := hlogs path ((logPath?_of_parse hparse).trans hpath)
    obtain ⟨path', hpath', hopens⟩ := opens_of_logsTo hparse hplace
    obtain rfl := Option.some.inj (hpath.symm.trans hpath')
    exact ⟨place, hopens⟩

/-! ## Sequences of runs -/

/-- the disk that runs leave -/
def left (disk : Disk) : List (Surroundings × List String) → Disk
  | [] => disk
  | (s, words) :: rest => left (run s disk words).disk rest

theorem left_concat (disk : Disk) (before : List (Surroundings × List String)) (s : Surroundings) (words : List String) :
    left disk (before ++ [(s, words)]) = (run s (left disk before) words).disk := by
  induction before generalizing disk with
  | nil => rfl
  | cons r before ih => exact ih (run r.1 disk r.2).disk

theorem getElem?_sequence (disk : Disk) (before rest : List (Surroundings × List String)) (s : Surroundings)
    (words : List String) :
    (sequence disk (before ++ (s, words) :: rest))[before.length]? = some (run s (left disk before) words) := by
  induction before generalizing disk with
  | nil => rfl
  | cons r before ih => exact ih (run r.1 disk r.2).disk

/-- what was in a file before all the runs is the beginning of what is in it afterwards -/
theorem kept_left {disk : Disk} {runs : List (Surroundings × List String)} {place : Location}
    (h : ∀ before s words rest, runs = before ++ (s, words) :: rest →
      Undisturbed s words (run s (left disk before) words) place) {text : String} (htext : disk.text? place = some text) :
    ∃ added, (left disk runs).text? place = some (text ++ added) := by
  induction runs generalizing disk text with
  | nil => exact ⟨"", by rw [left, htext, String.append_empty]⟩
  | cons r rest ih =>
    obtain ⟨s, words⟩ := r
    obtain ⟨added, hadded⟩ := (writes_run s disk words).kept place text (h [] s words rest rfl) htext
    obtain ⟨more, hmore⟩ := ih
      (fun before s' words' rest' heq => h ((s, words) :: before) s' words' rest' (congrArg ((s, words) :: ·) heq)) hadded
    refine ⟨added ++ more, ?_⟩
    rw [left, hmore, String.append_assoc]

/-- a file that none of the logs goes to is left as it was -/
theorem text?_left {disk : Disk} {runs : List (Surroundings × List String)} {place : Location}
    (h : ∀ before s words rest, runs = before ++ (s, words) :: rest →
      Undisturbed s words (run s (left disk before) words) place ∧ ¬ LogsTo s (left disk before) words place) :
    (left disk runs).text? place = disk.text? place := by
  induction runs generalizing disk with
  | nil => rfl
  | cons r rest ih =>
    obtain ⟨s, words⟩ := r
    obtain ⟨hundisturbed, hplace⟩ := h [] s words rest rfl
    have hfirst := (writes_run s disk words).others place hundisturbed hplace
    have hrest : (left (run s disk words).disk rest).text? place = (run s disk words).disk.text? place :=
      ih fun before s' words' rest' heq => h ((s, words) :: before) s' words' rest' (congrArg ((s, words) :: ·) heq)
    exact hrest.trans hfirst

/-- **Runs write whole records, and those to the logs that they are given.** Of runs that follow each other on one disk every
one writes as `Writes` says to the disk that the runs before it left, and leaves its own to the next. As long as git leaves a
file alone whenever it is asked, what was in it before all of them is the beginning of what is in it afterwards, and it is the
same if no log goes to it. -/
theorem sequence_writes_logs (disk : Disk) (runs : List (Surroundings × List String)) :
    (∀ before s words rest, runs = before ++ (s, words) :: rest →
      ∃ out, (sequence disk runs)[before.length]? = some out ∧ Writes s (left disk before) words out ∧
        left disk (before ++ [(s, words)]) = out.disk) ∧
    (∀ place, (∀ before s words rest, runs = before ++ (s, words) :: rest →
        Undisturbed s words (run s (left disk before) words) place) →
      ∀ text, disk.text? place = some text → ∃ added, (left disk runs).text? place = some (text ++ added)) ∧
    (∀ place, (∀ before s words rest, runs = before ++ (s, words) :: rest →
        Undisturbed s words (run s (left disk before) words) place ∧ ¬ LogsTo s (left disk before) words place) →
      (left disk runs).text? place = disk.text? place) := by
  refine ⟨?_, fun place h text htext => kept_left h htext, fun place h => text?_left h⟩
  rintro before s words rest rfl
  exact ⟨_, getElem?_sequence disk before rest s words, writes_run s _ words, left_concat disk before s words⟩

/-- a computation that finishes and a check of the same tables: four records, and the tables are left as they were -/
theorem sequence_writes_logs_one_project :
    let disk : Disk := ⟨[(["work"], .folder), (["work", "tables.yaml"], .file "projects: [llvm]\n")]⟩
    let s := { printingTwo with input := [.text "llvm/lib/IR/Value.cpp\n"] }
    let compute := ["compute", "Linux", "--config", "tables.yaml", "--log-file", "run.jsonl"]
    let runs := [(s, compute), (s, ["config", "check", "--config", "tables.yaml"])]
    (left disk runs).text? ["work", "tables.yaml"] = some "projects: [llvm]\n" ∧
    ∃ (out : Outcome) (t : Loaded) (e : Environment) (first added : String),
      (sequence disk runs)[0]? = some out ∧ out.exit = 0 ∧ Shows e false out.stdout ∧
      Notes s 0 "config.loaded" [("path", .string t.path)] first ∧ ScopeTold s t.model "Linux" s.inputLines e added ∧
      out.disk.text? ["work", "run.jsonl"] = some (first ++ added) := by
  intro disk s words runs
  obtain ⟨hruns, -, hothers⟩ := sequence_writes_logs disk runs
  let o : ComputeOptions := ⟨some "Linux", none, none, some "tables.yaml", some "run.jsonl", false, false⟩
  have hparse : parse words = .ok (.request false (.compute o)) := parse_eq_of_toOption (by decide +kernel)
  have hpath : logPath? words = some "run.jsonl" := by decide +kernel
  have hcheck : logPath? ["config", "check", "--config", "tables.yaml"] = none := by decide +kernel
  have hmade : disk.makeFolders s.directory (Path.parent "run.jsonl") = .ok disk := rfl
  have htarget : disk.target? s.directory "run.jsonl" = some ["work", "run.jsonl"] := by decide +kernel
  have htables : disk.text? ["work", "tables.yaml"] = some "projects: [llvm]\n" := rfl
  have hfresh : disk.text? ["work", "run.jsonl"] = none := rfl
  have hundisturbed : ∀ words out place, Undisturbed s words out place :=
    fun _ _ _ => ⟨fun _ _ _ => rfl, fun _ _ _ _ _ => rfl⟩
  constructor
  · rw [← htables]
    clear_value disk s words
    refine hothers ["work", "tables.yaml"] fun before s' words' rest heq => ?_
    rcases before with _ | ⟨first, _ | ⟨second, others⟩⟩
    · obtain ⟨rfl, rfl⟩ := Prod.mk.inj (List.cons.inj heq).1
      refine ⟨hundisturbed _ _ _, fun hlogs => ?_⟩
      obtain ⟨path, hpath', made, hmade', htarget'⟩ := hlogs
      obtain rfl := Option.some.inj (hpath.symm.trans hpath')
      obtain rfl := Except.ok.inj (hmade.symm.trans hmade')
      exact absurd (htarget.symm.trans htarget') (by decide)
    · obtain ⟨rfl, rfl⟩ := Prod.mk.inj (List.cons.inj (List.cons.inj heq).2).1
      refine ⟨hundisturbed _ _ _, fun hlogs => ?_⟩
      obtain ⟨path, hpath', -⟩ := hlogs
      exact absurd (hcheck.symm.trans hpath') nofun
    · have hlength := congrArg List.length heq
      simp [runs] at hlength
  · obtain ⟨t, ht⟩ : ∃ t, s.tables disk (some "tables.yaml") = .ok t := by
      have hsome : (s.tables disk (some "tables.yaml")).toOption.isSome = true := by decide +kernel
      cases ht : s.tables disk (some "tables.yaml") with
      | ok t => exact ⟨t, rfl⟩
      | error e =>
        rw [ht] at hsome
        contradiction
    obtain ⟨out, hout, hwrites, -⟩ := hruns [] s words _ rfl
    have hrecorded := hwrites.recorded false o _ hparse ⟨_, hpath, disk, hmade, htarget⟩ (hundisturbed _ _ _)
    obtain ⟨asked, first, -, hfirst, -, hfinished⟩ := hrecorded.loaded "Linux" t rfl ht
    obtain ⟨e, added, -, hexit, hshows, htold, htext⟩ := hfinished none s.inputLines rfl
    have hold : ((left disk []).text? ["work", "run.jsonl"]).getD "" = "" := congrArg (Option.getD · "") hfresh
    rw [hold, String.empty_append] at htext
    exact ⟨out, t, e, first, added, hout, hexit, hshows, hfirst, htold, htext⟩

end Run

end ChangeImpact
