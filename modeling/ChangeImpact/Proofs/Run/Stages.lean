/-
How far a computation comes.

`compute` goes from step to step, and the first step that fails ends the run: the platform, the tables,
opening the log, telling it of the tables, listing the changed files, telling the log of the scope. There
is one equation for each place where a run can end, and `compute_ends` says that there is no other. Up to
the changed files a run does not look at its input, its range or its repository; `Started` is a run that
has come that far, and `concluded` what is left of it.

Results:
- `compute_of_rejected`, `compute_of_unloaded`, `compute_of_unopened`, `compute_of_untold`: runs that end earlier.
- `compute_of_unlisted`, `compute_of_unfinished`, `compute_of_finished`: runs that come to their changed files.
- `compute_ends`: there is no other end.

What git does to the disk in between is not known. `KeepsWay` and `KeepsText` say of one call that it leaves
the way to a log's file, or the text of a file, as it was; the theorems that need this ask for it.
-/
import ChangeImpact.Proofs.Disk.Appended
import ChangeImpact.Run.Outcome

namespace ChangeImpact

/-! ## What git may do to the disk -/

namespace Surroundings

/-- a call to git does not change which file an addition at a path goes into -/
def KeepsWay (s : Surroundings) (call : Git.Call) (path : String) : Prop :=
  ∀ disk : Disk, (s.gitLeaves call disk).target? s.directory path = disk.target? s.directory path

/-- a call to git does not change the text of the file at a place -/
def KeepsText (s : Surroundings) (call : Git.Call) (place : Location) : Prop :=
  ∀ disk : Disk, (s.gitLeaves call disk).text? place = disk.text? place

/-- a call to git changes nothing -/
def OnlyReads (s : Surroundings) (call : Git.Call) : Prop :=
  ∀ disk : Disk, s.gitLeaves call disk = disk

end Surroundings

/-! ## Listing files on a disk that has grown -/

namespace Git

/-- a call that can be made can be made on a disk that has grown -/
theorem obstacle?_of_grows {d d' : Disk} (h : d.Grows d') {directory range : String}
    (hfree : obstacle? d directory range = none) : obstacle? d' directory range = none := by
  unfold obstacle? at hfree ⊢
  split at hfree
  · contradiction
  · next hnull =>
    rw [if_neg hnull]
    split at hfree
    · next hfolder => rw [Disk.look_folder_of_grows h hfolder]
    · contradiction
    · contradiction

theorem changedFiles_of_grows {git : Program} {d d' : Disk} (h : d.Grows d') {directory range : String}
    {call : Option Call} {files : List String} (hfiles : changedFiles git d directory range = (call, .ok files)) :
    changedFiles git d' directory range = (call, .ok files) := by
  cases ho : obstacle? d directory range with
  | some p =>
    simp only [changedFiles, ho, Prod.mk.injEq] at hfiles
    obtain ⟨-, hfiles⟩ := hfiles
    contradiction
  | none =>
    rw [← hfiles]
    simp only [changedFiles, ho, obstacle?_of_grows h ho]

end Git

/-- files that are listed on a disk are listed on one that has grown -/
theorem Surroundings.changedFiles_of_grows {s : Surroundings} {d d' : Disk} (h : d.Grows d')
    {range repository : Option String} {call : Option Git.Call} {files : List String}
    (hfiles : s.changedFiles d range repository = (call, .ok files)) :
    s.changedFiles d' range repository = (call, .ok files) := by
  unfold Surroundings.changedFiles at hfiles ⊢
  cases hrange : range.filter (· ≠ "") with
  | none =>
    rw [hrange] at hfiles
    exact hfiles
  | some r =>
    rw [hrange] at hfiles
    rcases hlisted : Git.changedFiles s.git d (Path.absolute s.directoryPath (repository.getD s.directoryPath)) r with
      ⟨called, listed⟩
    cases listed with
    | error p =>
      simp only [hlisted] at hfiles
      have hfailed : Except.error (p.failure _ _) = Except.ok files := (Prod.mk.inj hfiles).2
      contradiction
    | ok names =>
      simp only [hlisted] at hfiles
      simp only [Git.changedFiles_of_grows h hlisted]
      exact hfiles

namespace Run

open ChangeImpact.Action

/-! ## Steps -/

section Steps

variable {s : Surroundings} {pieces : List Piece} {warned : List String} {disk : Disk} {asked : Option Git.Call}

theorem loadTables_ok {config : Option String} {t : Loaded} (h : s.tables disk config = .ok t) :
    loadTables s config ⟨pieces, warned, disk, asked⟩ =
      .ok t ⟨pieces, warned ++ s.tablesWarnings disk config, disk, asked⟩ := by
  rw [loadTables, bind_of_ok (get_run _), h]
  rfl

theorem loadTables_error {config : Option String} {e : TablesError} (h : s.tables disk config = .error e) :
    loadTables s config ⟨pieces, warned, disk, asked⟩ =
      .error e.failure ⟨pieces, warned ++ s.tablesWarnings disk config, disk, asked⟩ := by
  rw [loadTables, bind_of_ok (get_run _), h]
  rfl

theorem openLog_ok {path : Option String} {log : Option Log} {made : Disk}
    (h : Log.opened path logContext s.directory disk = .ok (log, made)) :
    openLog s path ⟨pieces, warned, disk, asked⟩ = .ok log ⟨pieces, warned, made, asked⟩ := by
  rw [openLog, bind_of_ok (get_run _), h]
  rfl

theorem openLog_error {path : Option String} {e : DiskError} (h : Log.opened path logContext s.directory disk = .error e) :
    openLog s path ⟨pieces, warned, disk, asked⟩ = .error e.failure ⟨pieces, warned, disk, asked⟩ := by
  rw [openLog, bind_of_ok (get_run _), h]
  rfl

theorem tellLog_ok {log : Option Log} {n : Nat} {es : List Event} {last : Disk}
    (h : Log.tellIfAny log s.directory s.clock n es disk = (last, none)) :
    tellLog s log n es ⟨pieces, warned, disk, asked⟩ = .ok () ⟨pieces, warned, last, asked⟩ := by
  rw [tellLog, bind_of_ok (get_run _), h]
  rfl

theorem tellLog_error {log : Option Log} {n : Nat} {es : List Event} {last : Disk} {e : DiskError}
    (h : Log.tellIfAny log s.directory s.clock n es disk = (last, some e)) :
    tellLog s log n es ⟨pieces, warned, disk, asked⟩ = .error e.failure ⟨pieces, warned, last, asked⟩ := by
  rw [tellLog, bind_of_ok (get_run _), h]
  rfl

theorem listFiles_ok {range repository : Option String} {call : Option Git.Call} {files : List String}
    (h : s.changedFiles disk range repository = (call, .ok files)) :
    listFiles s range repository ⟨pieces, warned, disk, asked⟩ =
      .ok files ⟨pieces, warned, s.afterCall call disk, call⟩ := by
  rw [listFiles, bind_of_ok (get_run _), h]
  rfl

theorem listFiles_error {range repository : Option String} {call : Option Git.Call} {f : Failure}
    (h : s.changedFiles disk range repository = (call, .error f)) :
    listFiles s range repository ⟨pieces, warned, disk, asked⟩ =
      .error f ⟨pieces, warned, s.afterCall call disk, call⟩ := by
  rw [listFiles, bind_of_ok (get_run _), h]
  rfl

end Steps

/-! ## Where a run ends -/

/-- what a run has done that has printed its warning, if it has one, and has come to its tables -/
def begun (s : Surroundings) (config : Option String) (platform : String) (found last : Disk) (call : Option Git.Call) :
    Course :=
  ⟨linesOn .errors (platformWarnings platform), s.tablesWarnings found config, last, call⟩

/-- a run that ends with a failure after it has come to its tables -/
def stopped (s : Surroundings) (config : Option String) (platform : String) (found last : Disk) (call : Option Git.Call)
    (f : Failure) : Progress :=
  ⟨begun s config platform found last call, some f⟩

/-- a run that prints its environment at last -/
def completed (s : Surroundings) (config : Option String) (platform : String) (found last : Disk)
    (call : Option Git.Call) (lines : List String) : Progress :=
  ⟨{ begun s config platform found last call with
      pieces := linesOn .errors (platformWarnings platform) ++ linesOn .output lines }, none⟩

/-- what is left of a run when it knows the changed files -/
def concluded (s : Surroundings) (config : Option String) (json : Bool) (t : Loaded) (platform : String) (log : Option Log)
    (found later : Disk) : Option Git.Call × Except Failure (List String) → Progress
  | (call, .error f) => stopped s config platform found (s.afterCall call later) call f
  | (call, .ok files) =>
    let scope := t.model.scope files platform
    match Log.tellIfAny log s.directory s.clock 1 (scope.events platform) (s.afterCall call later) with
    | (last, some e) => stopped s config platform found last call e.failure
    | (last, none) => completed s config platform found last call (environmentLines json scope.environment)

/-- a run that comes to its changed files, with its platform, its tables, its log and the disk at that time -/
structure Started (s : Surroundings) (o : ComputeOptions) (disk : Disk) (platform : String) (t : Loaded)
    (log : Option Log) (later : Disk) : Prop where
  resolved : Platform.resolve o.platform s.systemName o.strict = .ok platform
  loaded : s.tables disk o.config = .ok t
  told : ∃ made, Log.opened o.logFile logContext s.directory disk = .ok (log, made) ∧
    Log.tellIfAny log s.directory s.clock 0 [loadedEvent t.path] made = (later, none)

section Equations

variable {s : Surroundings} {o : ComputeOptions} {disk later : Disk} {platform : String} {t : Loaded} {log : Option Log}

theorem progress_of_ok {a : Action Unit} {c : Course} (h : a ⟨[], [], disk, none⟩ = .ok () c) :
    a.progress disk = ⟨c, none⟩ := by
  rw [progress, h]

theorem progress_of_error {a : Action Unit} {c : Course} {f : Failure} (h : a ⟨[], [], disk, none⟩ = .error f c) :
    a.progress disk = ⟨c, some f⟩ := by
  rw [progress, h]

/-- a computation on a platform that it accepts goes on with the tables, after its warning -/
theorem computing_of_resolved (hp : Platform.resolve o.platform s.systemName o.strict = .ok platform) :
    computing s o ⟨[], [], disk, none⟩ = (do
      let t ← loadTables s o.config
      let log ← openLog s o.logFile
      tellLog s log 0 [loadedEvent t.path]
      let files ← listFiles s o.diff o.repo
      tellLog s log 1 ((t.model.scope files platform).events platform)
      printLines .output (environmentLines o.json (t.model.scope files platform).environment) : Action Unit)
        ⟨linesOn .errors (platformWarnings platform), [], disk, none⟩ := by
  have hattempt : (attempt ((Platform.resolve o.platform s.systemName o.strict).mapError Platform.Unknown.failure) :
      Action String) ⟨[], [], disk, none⟩ = .ok platform ⟨[], [], disk, none⟩ := by
    rw [hp]
    rfl
  rw [computing, bind_of_ok hattempt, bind_of_ok (printLines_run .errors (platformWarnings platform) _ _ _ _)]
  rfl

theorem compute_of_rejected {u : Platform.Unknown} (h : Platform.resolve o.platform s.systemName o.strict = .error u) :
    compute s o disk = ⟨⟨[], [], disk, none⟩, some u.failure⟩ := by
  have hattempt : (attempt ((Platform.resolve o.platform s.systemName o.strict).mapError Platform.Unknown.failure) :
      Action String) ⟨[], [], disk, none⟩ = .error u.failure ⟨[], [], disk, none⟩ := by
    rw [h]
    rfl
  exact progress_of_error (bind_of_error hattempt)

theorem compute_of_unloaded {e : TablesError} (hp : Platform.resolve o.platform s.systemName o.strict = .ok platform)
    (ht : s.tables disk o.config = .error e) : compute s o disk = stopped s o.config platform disk disk none e.failure := by
  apply progress_of_error
  rw [computing_of_resolved hp, bind_of_error (loadTables_error ht)]
  rfl

theorem compute_of_unopened {e : DiskError} (hp : Platform.resolve o.platform s.systemName o.strict = .ok platform)
    (ht : s.tables disk o.config = .ok t) (hl : Log.opened o.logFile logContext s.directory disk = .error e) :
    compute s o disk = stopped s o.config platform disk disk none e.failure := by
  apply progress_of_error
  rw [computing_of_resolved hp, bind_of_ok (loadTables_ok ht), bind_of_error (openLog_error hl)]
  rfl

theorem compute_of_untold {made : Disk} {e : DiskError}
    (hp : Platform.resolve o.platform s.systemName o.strict = .ok platform) (ht : s.tables disk o.config = .ok t)
    (hl : Log.opened o.logFile logContext s.directory disk = .ok (log, made))
    (htold : Log.tellIfAny log s.directory s.clock 0 [loadedEvent t.path] made = (later, some e)) :
    compute s o disk = stopped s o.config platform disk later none e.failure := by
  apply progress_of_error
  rw [computing_of_resolved hp, bind_of_ok (loadTables_ok ht), bind_of_ok (openLog_ok hl),
    bind_of_error (tellLog_error htold)]
  rfl

theorem compute_of_unlisted {call : Option Git.Call} {f : Failure} (h : Started s o disk platform t log later)
    (hc : s.changedFiles later o.diff o.repo = (call, .error f)) :
    compute s o disk = stopped s o.config platform disk (s.afterCall call later) call f := by
  obtain ⟨hp, ht, made, hl, htold⟩ := h
  apply progress_of_error
  rw [computing_of_resolved hp, bind_of_ok (loadTables_ok ht), bind_of_ok (openLog_ok hl), bind_of_ok (tellLog_ok htold),
    bind_of_error (listFiles_error hc)]
  rfl

theorem compute_of_unfinished {last : Disk} {call : Option Git.Call} {files : List String} {e : DiskError}
    (h : Started s o disk platform t log later) (hc : s.changedFiles later o.diff o.repo = (call, .ok files))
    (hscope : Log.tellIfAny log s.directory s.clock 1 ((t.model.scope files platform).events platform)
      (s.afterCall call later) = (last, some e)) :
    compute s o disk = stopped s o.config platform disk last call e.failure := by
  obtain ⟨hp, ht, made, hl, htold⟩ := h
  apply progress_of_error
  rw [computing_of_resolved hp, bind_of_ok (loadTables_ok ht), bind_of_ok (openLog_ok hl), bind_of_ok (tellLog_ok htold),
    bind_of_ok (listFiles_ok hc), bind_of_error (tellLog_error hscope)]
  rfl

theorem compute_of_finished {last : Disk} {call : Option Git.Call} {files : List String}
    (h : Started s o disk platform t log later) (hc : s.changedFiles later o.diff o.repo = (call, .ok files))
    (hscope : Log.tellIfAny log s.directory s.clock 1 ((t.model.scope files platform).events platform)
      (s.afterCall call later) = (last, none)) :
    compute s o disk = completed s o.config platform disk last call
      (environmentLines o.json (t.model.scope files platform).environment) := by
  obtain ⟨hp, ht, made, hl, htold⟩ := h
  apply progress_of_ok
  rw [computing_of_resolved hp, bind_of_ok (loadTables_ok ht), bind_of_ok (openLog_ok hl), bind_of_ok (tellLog_ok htold),
    bind_of_ok (listFiles_ok hc), bind_of_ok (tellLog_ok hscope), printLines_run]
  rfl

theorem compute_of_started (h : Started s o disk platform t log later) :
    compute s o disk =
      concluded s o.config o.json t platform log disk later (s.changedFiles later o.diff o.repo) := by
  rcases hc : s.changedFiles later o.diff o.repo with ⟨call, listed⟩
  cases listed with
  | error f => exact compute_of_unlisted h hc
  | ok files =>
    rcases hscope : Log.tellIfAny log s.directory s.clock 1 ((t.model.scope files platform).events platform)
      (s.afterCall call later) with ⟨last, trouble⟩
    cases trouble with
    | some e =>
      rw [compute_of_unfinished h hc hscope]
      simp only [concluded, hscope]
    | none =>
      rw [compute_of_finished h hc hscope]
      simp only [concluded, hscope]

/-- whatever comes of its log, the call of a run is the one that it made to learn its files -/
theorem Started.call (h : Started s o disk platform t log later) {call : Option Git.Call}
    {listed : Except Failure (List String)} (hc : s.changedFiles later o.diff o.repo = (call, listed)) :
    (compute s o disk).course.call = call := by
  rw [compute_of_started h, hc]
  cases listed with
  | error f => rfl
  | ok files =>
    simp only [concluded]
    split <;> rfl

end Equations

/-- the ends of a run of `compute`, one for each step that can fail and one for the result -/
inductive Ends (s : Surroundings) (o : ComputeOptions) (disk : Disk) : Progress → Prop
  | rejected {u : Platform.Unknown} (hp : Platform.resolve o.platform s.systemName o.strict = .error u) :
    Ends s o disk ⟨⟨[], [], disk, none⟩, some u.failure⟩
  | unloaded {platform : String} {e : TablesError} (hp : Platform.resolve o.platform s.systemName o.strict = .ok platform)
      (ht : s.tables disk o.config = .error e) : Ends s o disk (stopped s o.config platform disk disk none e.failure)
  | unopened {platform : String} {t : Loaded} {e : DiskError}
      (hp : Platform.resolve o.platform s.systemName o.strict = .ok platform) (ht : s.tables disk o.config = .ok t)
      (hl : Log.opened o.logFile logContext s.directory disk = .error e) :
    Ends s o disk (stopped s o.config platform disk disk none e.failure)
  | untold {platform : String} {t : Loaded} {log : Option Log} {made later : Disk} {e : DiskError}
      (hp : Platform.resolve o.platform s.systemName o.strict = .ok platform) (ht : s.tables disk o.config = .ok t)
      (hl : Log.opened o.logFile logContext s.directory disk = .ok (log, made))
      (htold : Log.tellIfAny log s.directory s.clock 0 [loadedEvent t.path] made = (later, some e)) :
    Ends s o disk (stopped s o.config platform disk later none e.failure)
  | unlisted {platform : String} {t : Loaded} {log : Option Log} {later : Disk} {call : Option Git.Call} {f : Failure}
      (h : Started s o disk platform t log later) (hc : s.changedFiles later o.diff o.repo = (call, .error f)) :
    Ends s o disk (stopped s o.config platform disk (s.afterCall call later) call f)
  | unfinished {platform : String} {t : Loaded} {log : Option Log} {later last : Disk} {call : Option Git.Call}
      {files : List String} {e : DiskError} (h : Started s o disk platform t log later)
      (hc : s.changedFiles later o.diff o.repo = (call, .ok files))
      (hscope : Log.tellIfAny log s.directory s.clock 1 ((t.model.scope files platform).events platform)
        (s.afterCall call later) = (last, some e)) :
    Ends s o disk (stopped s o.config platform disk last call e.failure)
  | finished {platform : String} {t : Loaded} {log : Option Log} {later last : Disk} {call : Option Git.Call}
      {files : List String} (h : Started s o disk platform t log later)
      (hc : s.changedFiles later o.diff o.repo = (call, .ok files))
      (hscope : Log.tellIfAny log s.directory s.clock 1 ((t.model.scope files platform).events platform)
        (s.afterCall call later) = (last, none)) :
    Ends s o disk (completed s o.config platform disk last call
      (environmentLines o.json (t.model.scope files platform).environment))

/-- a run of `compute` ends in one of the seven ways -/
theorem compute_ends (s : Surroundings) (o : ComputeOptions) (disk : Disk) : Ends s o disk (compute s o disk) := by
  cases hp : Platform.resolve o.platform s.systemName o.strict with
  | error u =>
    rw [compute_of_rejected hp]
    exact .rejected hp
  | ok platform =>
  cases ht : s.tables disk o.config with
  | error e =>
    rw [compute_of_unloaded hp ht]
    exact .unloaded hp ht
  | ok t =>
  cases hl : Log.opened o.logFile logContext s.directory disk with
  | error e =>
    rw [compute_of_unopened hp ht hl]
    exact .unopened hp ht hl
  | ok opened =>
  obtain ⟨log, made⟩ := opened
  rcases htold : Log.tellIfAny log s.directory s.clock 0 [loadedEvent t.path] made with ⟨later, trouble⟩
  cases trouble with
  | some e =>
    rw [compute_of_untold hp ht hl htold]
    exact .untold hp ht hl htold
  | none =>
  have hstarted : Started s o disk platform t log later := ⟨hp, ht, made, hl, htold⟩
  rcases hc : s.changedFiles later o.diff o.repo with ⟨call, listed⟩
  cases listed with
  | error f =>
    rw [compute_of_unlisted hstarted hc]
    exact .unlisted hstarted hc
  | ok files =>
  rcases hscope : Log.tellIfAny log s.directory s.clock 1 ((t.model.scope files platform).events platform)
    (s.afterCall call later) with ⟨last, trouble⟩
  cases trouble with
  | some e =>
    rw [compute_of_unfinished hstarted hc hscope]
    exact .unfinished hstarted hc hscope
  | none =>
    rw [compute_of_finished hstarted hc hscope]
    exact .finished hstarted hc hscope

/-- until it comes to its changed files a run only adds to the disk -/
theorem Started.grows {s : Surroundings} {o : ComputeOptions} {disk later : Disk} {platform : String} {t : Loaded}
    {log : Option Log} (h : Started s o disk platform t log later) : disk.Grows later := by
  obtain ⟨-, -, made, hl, htold⟩ := h
  exact (Log.opened_grows hl).trans (Log.grows_of_told htold)

/-! ## The other commands -/

section

variable {s : Surroundings} {config : Option String} {disk : Disk}

theorem projects_of_loaded {t : Loaded} (ht : s.tables disk config = .ok t) (files : List String) :
    projects s config files disk =
      ⟨⟨linesOn .output (projectsOf t.model (if files.isEmpty then s.inputLines else files)),
        s.tablesWarnings disk config, disk, none⟩, none⟩ := by
  apply progress_of_ok
  rw [bind_of_ok (loadTables_ok ht), printLines_run]
  rfl

theorem projects_of_unloaded {e : TablesError} (ht : s.tables disk config = .error e) (files : List String) :
    projects s config files disk = ⟨⟨[], s.tablesWarnings disk config, disk, none⟩, some e.failure⟩ := by
  apply progress_of_error
  rw [bind_of_error (loadTables_error ht)]
  rfl

theorem check_of_loaded {t : Loaded} (ht : s.tables disk config = .ok t) :
    check s config disk = ⟨⟨linesOn .output (tablesSummary t), s.tablesWarnings disk config, disk, none⟩, none⟩ := by
  apply progress_of_ok
  rw [bind_of_ok (loadTables_ok ht), printLines_run]
  rfl

theorem check_of_unloaded {e : TablesError} (ht : s.tables disk config = .error e) :
    check s config disk = ⟨⟨[], s.tablesWarnings disk config, disk, none⟩, some e.failure⟩ := by
  apply progress_of_error
  rw [bind_of_error (loadTables_error ht)]
  rfl

end

end Run

end ChangeImpact
