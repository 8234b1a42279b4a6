/-
What ends a run without a result.

`Fails` says what can come in the way of a request: the platform, the tables, the folders of the log, a
record of the log, or the list of changed files. A record is written to a disk that the run has only added
to, or that git has left in between (`Passes`). Each of these failures is an error, and where it is caused
by something then by another error; a report can only fail for a value without a text, so every failure of
a run is reported (`reports_of_fails`).

Results:
- `untold_of_tellIfAny`, `unopened_of_opened`: trouble with the log is trouble with a folder or with a record.
- `shown_rendered`: the text of a report, line by line.
- `plain_of_fails`: what ends a run is an error, and an error is its cause.
- `reports_of_fails`: its report, short or in detail, in colours or without.
-/
import ChangeImpact.Proofs.Report.Detail
import ChangeImpact.Proofs.Run.Routes

namespace ChangeImpact

open ChangeImpact.Text

/-! ## Errors that are caused by errors -/

namespace Failure

variable {f : Failure}

/-- an error that is caused by an error, if by anything -/
inductive Plain : Failure → Prop
  | uncaused {kind : ErrorKind} {name message : String} {stack : Option String} : Plain (.error kind name message stack none)
  | caused {kind reason : ErrorKind} {name message called told : String} {stack trace : Option String}
      {cause : Option Failure} :
    Plain (.error kind name message stack (some (.error reason called told trace cause)))

theorem Plain.traced (h : f.Plain) (stack : Option String) : (f.traced stack).Plain := by
  cases h with
  | uncaused => exact .uncaused
  | caused => exact .caused

theorem Plain.not_untold (h : f.Plain) (detail : Detail) : ¬ f.Untold detail := by
  rw [← tellable_eq_false_iff, Bool.not_eq_false]
  cases h with
  | @uncaused kind => cases kind <;> cases detail <;> rfl
  | @caused kind => cases kind <;> cases detail <;> rfl

/-- a line without colours: a word for what it is where its text does not say so, and its text -/
def spelled (l : ReportLine) : String :=
  (match l.kind with
  | .hint => "Hint: "
  | .next => "Next: "
  | .code => "Code: "
  | .name => "Name: "
  | .cause => "Cause: "
  | .title | .message | .stack => "") ++ l.text

theorem renderLine_plain (l : ReportLine) : renderLine false l = spelled l := by
  obtain ⟨kind, text⟩ := l
  cases kind <;> rfl

theorem rendered_plain (ls : List ReportLine) :
    "\n".intercalate (ls.map (renderLine false)) = "\n".intercalate (ls.map spelled) :=
  congrArg "\n".intercalate (List.map_congr_left fun l _ => renderLine_plain l)

/-- lines are put one under the other in a text, as they are or in colours -/
structure Shown (ls : List ReportLine) (coloured : Bool) (text : String) : Prop where
  plain : coloured = false → text = "\n".intercalate (ls.map spelled)
  coloured : coloured = true → (∀ l ∈ ls, '\x1b' ∉ l.text.toList) →
    withoutStyling text = "\n".intercalate (ls.map spelled)
  inside : ∀ l ∈ ls, l.text.toList <:+: text.toList

theorem shown_rendered (ls : List ReportLine) (coloured : Bool) :
    Shown ls coloured ("\n".intercalate (ls.map (renderLine coloured))) where
  plain := by
    rintro rfl
    exact rendered_plain ls
  coloured := by
    rintro rfl hplain
    rw [withoutStyling_rendered hplain, rendered_plain]
  inside := fun l hl => (infix_renderLine coloured l).trans (infix_rendered hl coloured)

/-- a text is the report of a failure: its lines in the order of their kinds, the title first and each kind at most once -/
structure Reports (f : Failure) (detail : Detail) (coloured : Bool) (text : String) : Prop where
  made : f.shown detail coloured = .ok text
  lines : ∃ ls, f.told detail = .ok ls ∧ Arranged ls ∧ Shown ls coloured text

theorem Plain.reports (h : f.Plain) (detail : Detail) (coloured : Bool) :
    f.Reports detail coloured (f.render detail coloured) where
  made := shown_of_not_untold (h.not_untold detail) coloured
  lines := ⟨f.lines detail, told_of_not_untold (h.not_untold detail), arranged_lines f detail, shown_rendered _ coloured⟩

end Failure

namespace Run

/-! ## Failures -/

/-- the path of the tables that a request names -/
def configOf : Request → Option String
  | .compute o => o.config
  | .projects config _ => config
  | .check config => config

/-- a disk on which a run may write: it has only been added to, or git has left it and then it has only been added to -/
inductive Passes (s : Surroundings) (found : Disk) : Disk → Prop
  | added {d : Disk} (h : found.Grows d) : Passes s found d
  | asked {call : Git.Call} {d later : Disk} (h : found.Grows d) (hg : (s.gitLeaves call d).Grows later) :
    Passes s found later

theorem Passes.grows {s : Surroundings} {found d later : Disk} (h : Passes s found d) (hg : d.Grows later) :
    Passes s found later := by
  cases h with
  | added h => exact .added (h.trans hg)
  | asked h hleft => exact .asked h (hleft.trans hg)

theorem passes_afterCall {s : Surroundings} {found d : Disk} (h : found.Grows d) (call : Option Git.Call) :
    Passes s found (s.afterCall call d) := by
  cases call with
  | none => exact .added h
  | some call => exact .asked h (.refl _)

/-- what ends a request without a result -/
inductive Fails (s : Surroundings) (found : Disk) : Request → Failure → Prop
  | platform {o : ComputeOptions} {u : Platform.Unknown}
      (h : Platform.resolve o.platform s.systemName o.strict = .error u) : Fails s found (.compute o) u.failure
  | tables {r : Request} {e : TablesError} (h : s.tables found (configOf r) = .error e) : Fails s found r e.failure
  | folders {o : ComputeOptions} {path : String} {e : DiskError} (hl : o.logFile.bind present? = some path)
      (h : found.makeFolders s.directory (Path.parent path) = .error e) : Fails s found (.compute o) e.failure
  | record {o : ComputeOptions} {path line : String} {later : Disk} {e : DiskError}
      (hl : o.logFile.bind present? = some path) (hd : Passes s found later)
      (h : later.append s.directory path line = .error e) : Fails s found (.compute o) e.failure
  | files {o : ComputeOptions} {asked : Disk} {call : Option Git.Call} {f : Failure} (hg : found.Grows asked)
      (h : s.changedFiles asked o.diff o.repo = (call, .error f)) : Fails s found (.compute o) f

/-! ## Trouble with the log -/

theorem untold_of_tell {log : Log} {directory : Location} {clock : Nat → Instant} {n : Nat} {es : List Event}
    {d last : Disk} {e : DiskError} (h : log.tell directory clock n es d = (last, some e)) :
    ∃ later line, d.Grows later ∧ later.append directory log.path line = .error e := by
  induction es generalizing n d with
  | nil =>
    rw [Log.tell, Prod.mk.injEq] at h
    cases h.2
  | cons event es ih =>
    rw [Log.tell] at h
    split at h
    · next written hwrite =>
      obtain ⟨later, line, hgrows, happend⟩ := ih h
      exact ⟨later, line, (Disk.append_grows hwrite).trans hgrows, happend⟩
    · next trouble hwrite =>
      obtain rfl : trouble = e := Option.some.inj (Prod.mk.inj h).2
      exact ⟨d, _, .refl d, hwrite⟩

theorem untold_of_tellIfAny {log : Option Log} {directory : Location} {clock : Nat → Instant} {n : Nat} {es : List Event}
    {d last : Disk} {e : DiskError} (h : Log.tellIfAny log directory clock n es d = (last, some e)) :
    ∃ l, log = some l ∧ ∃ later line, d.Grows later ∧ later.append directory l.path line = .error e := by
  cases log with
  | none => cases (Prod.mk.inj h).2
  | some l => exact ⟨l, rfl, untold_of_tell h⟩

theorem unopened_of_opened {path : Option String} {context : List (String × Value)} {directory : Location} {d : Disk}
    {e : DiskError} (h : Log.opened path context directory d = .error e) :
    ∃ p, path.bind present? = some p ∧ d.makeFolders directory (Path.parent p) = .error e := by
  unfold Log.opened at h
  split at h
  · contradiction
  · next p hp =>
    refine ⟨p, hp, ?_⟩
    cases hprepare : Log.prepare ⟨p, context⟩ d directory with
    | error trouble =>
      simp only [hprepare, Except.map, Except.error.injEq] at h
      rw [← h]
      exact hprepare
    | ok m =>
      simp only [hprepare, Except.map] at h
      contradiction

/-- a record that cannot be written, of those that a run tells its log of -/
theorem fails_of_untold {s : Surroundings} {o : ComputeOptions} {found made d last : Disk} {log : Option Log} {n : Nat}
    {es : List Event} {e : DiskError} (hl : Log.opened o.logFile logContext s.directory found = .ok (log, made))
    (hd : Passes s found d) (h : Log.tellIfAny log s.directory s.clock n es d = (last, some e)) :
    Fails s found (.compute o) e.failure := by
  obtain ⟨l, rfl, later, line, hgrows, happend⟩ := untold_of_tellIfAny h
  exact .record (path_of_opened hl) (hd.grows hgrows) happend

/-! ## Reports of failures -/

section

variable {s : Surroundings} {disk : Disk} {f : Failure}

theorem plain_of_tables (e : TablesError) : e.failure.Plain := by
  cases e with
  | missing => exact .uncaused
  | unloaded e =>
    cases e with
    | unreadable | notYaml | refused => exact .caused

theorem plain_of_changedFiles {range repository : Option String} {call : Option Git.Call}
    (h : s.changedFiles disk range repository = (call, .error f)) : f.Plain := by
  unfold Surroundings.changedFiles at h
  split at h
  · cases (Prod.mk.inj h).2
  · next range _ =>
    dsimp only at h
    obtain ⟨-, hfailed⟩ := Prod.mk.inj h
    cases hlisted : (Git.changedFiles s.git disk (Path.absolute s.directoryPath (repository.getD s.directoryPath)) range).2 with
    | ok files =>
      rw [hlisted] at hfailed
      cases hfailed
    | error p =>
      rw [hlisted] at hfailed
      rw [← Except.error.inj hfailed]
      exact .caused

/-- what ends a run is an error, and an error is its cause -/
theorem plain_of_fails {r : Request} (h : Fails s disk r f) : f.Plain := by
  cases h with
  | platform => exact .uncaused
  | tables => exact plain_of_tables _
  | folders => exact .uncaused
  | record => exact .uncaused
  | files _ hc => exact plain_of_changedFiles hc

/-- whatever ends a run has a report -/
theorem reports_of_fails {r : Request} (h : Fails s disk r f) (stack : Option String) (detail : Detail) (coloured : Bool) :
    (f.traced stack).Reports detail coloured ((f.traced stack).render detail coloured) :=
  ((plain_of_fails h).traced stack).reports detail coloured

end

end Run

end ChangeImpact
