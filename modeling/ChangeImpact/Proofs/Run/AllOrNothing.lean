/-
A run prints its whole result or nothing.

A script that takes what a run prints must never see a part of it. Texts are printed as a run goes on, and
none of them is taken back, so this is a property of the order of things: nothing is printed as output before
nothing can fail any more. `Answers` says what the whole result of a request is, line by line, and `Fails`
what can come in its way. Every request either is answered or fails, and `preface`, the warning of a platform
that nobody knows, is all that is printed besides.

Results:
- `settles_compute`, `settles_projects`, `settles_check`: each command is answered or fails.
- `stderr_of_settles`: what goes to the errors.
- `run_all_or_nothing`: every run of a command line that asks for one of them.
-/
import ChangeImpact.Proofs.Run.Failures
import ChangeImpact.Proofs.Run.Forms
import ChangeImpact.Proofs.Selection.Union

namespace ChangeImpact.Run

open ChangeImpact.Action
open ChangeImpact.Text

/-! ## Answers -/

/-- the warning that a computation begins with when its platform is unknown and its caller is not strict -/
def preface (s : Surroundings) : Request → String
  | .compute o =>
    let platform := Platform.named o.platform s.systemName
    if o.strict = false ∧ Platform.ofName? platform = none then
      "Warning: unknown platform \"" ++ platform ++ "\"; no platform exclusions applied." ++ "\n"
    else ""
  | _ => ""

/-- the environment of a computation that finds a disk: that of the files which are listed when the run has only added to it -/
structure Computed (s : Surroundings) (found : Disk) (o : ComputeOptions) (e : Environment) : Prop where
  scope : ∃ platform t asked call files, Platform.resolve o.platform s.systemName o.strict = .ok platform ∧
    s.tables found o.config = .ok t ∧ found.Grows asked ∧ s.changedFiles asked o.diff o.repo = (call, .ok files) ∧
    e = (t.model.scope files platform).environment

/-- settings as they are printed: each on a line of its own, or as one JSON object -/
inductive Shows (e : Environment) : Bool → String → Prop
  | assignments : Shows e false (String.join ([
      "projects_to_build='" ++ e.built ++ "'",
      "project_check_targets='" ++ e.checkTargets ++ "'",
      "runtimes_to_build='" ++ e.runtimesBuilt ++ "'",
      "runtimes_check_targets='" ++ e.runtimeTargets ++ "'",
      "runtimes_check_targets_needs_reconfig='" ++ e.reconfiguredTargets ++ "'",
      "enable_cir='" ++ e.sentinel ++ "'"].map (· ++ "\n")))
  | object {body : String} (hread : Json.read? (body ++ "\n") = some (.object
      [("projects_to_build", .string e.built), ("project_check_targets", .string e.checkTargets),
       ("runtimes_to_build", .string e.runtimesBuilt), ("runtimes_check_targets", .string e.runtimeTargets),
       ("runtimes_check_targets_needs_reconfig", .string e.reconfiguredTargets), ("enable_cir", .string e.sentinel)])) :
    Shows e true (body ++ "\n")

/-- the whole result of a request, with every line that it has -/
inductive Answers (s : Surroundings) (found : Disk) : Request → String → Prop
  | settings {o : ComputeOptions} {e : Environment} {output : String} (he : Computed s found o e)
      (hs : Shows e o.json output) : Answers s found (.compute o) output
  | touched {config : Option String} {words names : List String} {t : Loaded} (ht : s.tables found config = .ok t)
      (ascending : names.Pairwise Before)
      (hm : ∀ x, x ∈ names ↔ ∃ f ∈ if words.isEmpty then s.inputLines else words, x ∈ t.model.owners (clean f)) :
    Answers s found (.projects config words) (String.join (names.map (· ++ "\n")))
  | summary {config : Option String} {t : Loaded} {source : String} (ht : s.tables found config = .ok t)
      (hs : (t.source, source) ∈ [(.explicit, "explicit"), (.environment, "env"), (.bundled, "bundled")]) :
    Answers s found (.check config)
      (String.join ([
        "Selection config OK: " ++ t.path ++ " (" ++ source ++ ")",
        "  " ++ toString t.model.projects.names.length ++ " projects, " ++ toString t.model.runtimes.names.length ++
          " runtimes, " ++ toString t.model.checkTargets.entries.length ++ " check targets, " ++
          toString t.model.rules.length ++ " meta-project rules",
        "  Linux: " ++ toString t.model.excluded.linux.names.length ++ " excluded",
        "  Windows: " ++ toString t.model.excluded.windows.names.length ++ " excluded",
        "  Darwin: " ++ toString t.model.excluded.darwin.names.length ++ " excluded"].map (· ++ "\n")))

/-- a request has come to its whole result, printed behind its preface, or to its one failure with nothing but the preface
printed -/
inductive Settles (s : Surroundings) (found : Disk) (r : Request) : Progress → Prop
  | answered {warnings lines warned : List String} {last : Disk} {call : Option Git.Call}
      (hw : printed warnings = preface s r) (h : Answers s found r (printed lines)) :
    Settles s found r ⟨⟨linesOn .errors warnings ++ linesOn .output lines, warned, last, call⟩, none⟩
  | failed {warnings warned : List String} {last : Disk} {call : Option Git.Call} {f : Failure}
      (hw : printed warnings = preface s r) (h : Fails s found r f) :
    Settles s found r ⟨⟨linesOn .errors warnings, warned, last, call⟩, some f⟩

section

variable {s : Surroundings} {found last : Disk} {r : Request} {warned : List String} {call : Option Git.Call}

/-- a request without a preface has its result printed, and nothing else -/
theorem settles_of_answer {lines : List String} (hw : preface s r = "") (h : Answers s found r (printed lines)) :
    Settles s found r ⟨⟨linesOn .output lines, warned, last, call⟩, none⟩ :=
  @Settles.answered s found r [] lines warned last call hw.symm h

/-- or it has come to its failure with nothing printed -/
theorem settles_of_failure {f : Failure} (hw : preface s r = "") (h : Fails s found r f) :
    Settles s found r ⟨⟨[], warned, last, call⟩, some f⟩ :=
  @Settles.failed s found r [] warned last call f hw.symm h

end

/-! ## Computations -/

theorem printed_platformWarnings {s : Surroundings} {o : ComputeOptions} {platform : String}
    (h : Platform.resolve o.platform s.systemName o.strict = .ok platform) :
    printed (platformWarnings platform) = preface s (.compute o) := by
  obtain ⟨rfl, hknown⟩ := Platform.resolve_eq_ok_iff.mp h
  cases hp : Platform.ofName? (Platform.named o.platform s.systemName) with
  | some p => simp [platformWarnings, preface, hp, printed, String.join]
  | none =>
    have hstrict : o.strict = false := Bool.eq_false_iff.mpr fun hs => hknown hs hp
    simp [platformWarnings, preface, hp, hstrict, printed, String.join]

theorem preface_of_rejected {s : Surroundings} {o : ComputeOptions} {u : Platform.Unknown}
    (h : Platform.resolve o.platform s.systemName o.strict = .error u) : preface s (.compute o) = "" := by
  simp [preface, Platform.strict_of_resolve_eq_error h]

theorem shows_environment (e : Environment) (json : Bool) : Shows e json (printed (environmentLines json e)) := by
  cases json with
  | true =>
    have hbody : printed (environmentLines true e) = e.json ++ "\n" := by
      simp [printed, environmentLines, String.join]
    have hread : Json.read? (printed [e.json]) = some e.toValue := e.read?_json
    rw [hbody]
    exact .object (hbody ▸ hread)
  | false =>
    have hlines : environmentLines false e =
        ["projects_to_build='" ++ e.built ++ "'", "project_check_targets='" ++ e.checkTargets ++ "'",
         "runtimes_to_build='" ++ e.runtimesBuilt ++ "'", "runtimes_check_targets='" ++ e.runtimeTargets ++ "'",
         "runtimes_check_targets_needs_reconfig='" ++ e.reconfiguredTargets ++ "'",
         "enable_cir='" ++ e.sentinel ++ "'"] := by
      simp [environmentLines, Environment.assignments, Environment.settings, Environment.assignment]
    rw [hlines]
    exact .assignments

theorem settles_compute (s : Surroundings) (o : ComputeOptions) (found : Disk) :
    Settles s found (.compute o) (compute s o found) := by
  obtain ⟨p, hrun, hends⟩ : ∃ p, compute s o found = p ∧ Ends s o found p := ⟨_, rfl, compute_ends s o found⟩
  rw [hrun]
  cases hends with
  | rejected hp => exact settles_of_failure (preface_of_rejected hp) (.platform hp)
  | unloaded hp ht => exact .failed (printed_platformWarnings hp) (.tables ht)
  | unopened hp ht hl =>
    obtain ⟨path, hpath, hfolders⟩ := unopened_of_opened hl
    exact .failed (printed_platformWarnings hp) (.folders hpath hfolders)
  | untold hp ht hl htold =>
    exact .failed (printed_platformWarnings hp) (fails_of_untold hl (.added (Log.opened_grows hl)) htold)
  | unlisted h hc => exact .failed (printed_platformWarnings h.resolved) (.files h.grows hc)
  | unfinished h hc htold =>
    obtain ⟨made, hl, -⟩ := h.told
    exact .failed (printed_platformWarnings h.resolved) (fails_of_untold hl (passes_afterCall h.grows _) htold)
  | finished h hc htold =>
    have hcomputed : Computed s found o _ := ⟨_, _, _, _, _, h.resolved, h.loaded, h.grows, hc, rfl⟩
    exact .answered (printed_platformWarnings h.resolved) (.settings hcomputed (shows_environment _ o.json))

/-! ## The other commands -/

theorem mem_projectsOf {m : Model} {files : List String} {x : String} :
    x ∈ projectsOf m files ↔ ∃ f ∈ files, x ∈ m.owners (clean f) :=
  Model.mem_touched_cleanAll

theorem settles_projects (s : Surroundings) (config : Option String) (words : List String) (found : Disk) :
    Settles s found (.projects config words) (projects s config words found) := by
  cases ht : s.tables found config with
  | error e =>
    rw [projects_of_unloaded ht]
    exact settles_of_failure rfl (.tables ht)
  | ok t =>
    rw [projects_of_loaded ht]
    exact settles_of_answer rfl (.touched ht (NameSet.ascending _) fun _ => mem_projectsOf)

/-- the summary of tables, line by line -/
theorem answers_summary {s : Surroundings} {config : Option String} {found : Disk} {t : Loaded}
    (ht : s.tables found config = .ok t) : Answers s found (.check config) (printed (tablesSummary t)) := by
  have hsource : (t.source, t.source.name) ∈
      [(Source.explicit, "explicit"), (.environment, "env"), (.bundled, "bundled")] := by
    cases t.source <;> decide
  have hlines : tablesSummary t =
      ["Selection config OK: " ++ t.path ++ " (" ++ t.source.name ++ ")",
       "  " ++ toString t.model.projects.names.length ++ " projects, " ++ toString t.model.runtimes.names.length ++
         " runtimes, " ++ toString t.model.checkTargets.entries.length ++ " check targets, " ++
         toString t.model.rules.length ++ " meta-project rules",
       "  Linux: " ++ toString t.model.excluded.linux.names.length ++ " excluded",
       "  Windows: " ++ toString t.model.excluded.windows.names.length ++ " excluded",
       "  Darwin: " ++ toString t.model.excluded.darwin.names.length ++ " excluded"] := by
    simp [tablesSummary, Platform.all, Platform.name, PerPlatform.get, NameSet.size]
  rw [hlines]
  exact .summary ht hsource

theorem settles_check (s : Surroundings) (config : Option String) (found : Disk) :
    Settles s found (.check config) (check s config found) := by
  cases ht : s.tables found config with
  | error e =>
    rw [check_of_unloaded ht]
    exact settles_of_failure rfl (.tables ht)
  | ok t =>
    rw [check_of_loaded ht]
    exact settles_of_answer rfl (answers_summary ht)

theorem settles_request (s : Surroundings) (found : Disk) (r : Request) : Settles s found r (request s found r) := by
  cases r with
  | compute o => exact settles_compute s o found
  | projects config words => exact settles_projects s config words found
  | check config => exact settles_check s config found

/-! ## Whole runs -/

/-- what goes to the errors: the preface, and the report of a failure if there is one -/
theorem stderr_of_settles {s : Surroundings} {found : Disk} {r : Request} {p : Progress} (h : Settles s found r p)
    (debug : Bool) :
    (p.failure = none ∧ (p.outcome s debug).stderr = preface s r) ∨
    ∃ f, p.failure = some f ∧ Fails s found r f ∧ (p.outcome s debug).stderr = preface s r ++ s.report debug f := by
  cases h with
  | @answered warnings lines warned last call hw _ =>
    refine .inl ⟨rfl, ?_⟩
    rw [← hw]
    exact errors_of_warned warnings lines
  | @failed warnings warned last call f hw hfails =>
    refine .inr ⟨f, rfl, hfails, ?_⟩
    have hreport : textOn .errors [⟨.errors, s.report debug f⟩] = s.report debug f := by
      simp [textOn, String.join]
    simp only [Progress.outcome, Outcome.stderr]
    rw [textOn_append, textOn_linesOn, hw, hreport]

/-- after a text for the output no other is printed than for the output -/
def OutputLast (pieces : List Piece) : Prop :=
  pieces.Pairwise fun p q => p.stream = .output → q.stream = .output

theorem stream_of_mem_linesOn {stream : Stream} {lines : List String} {p : Piece} (h : p ∈ linesOn stream lines) :
    p.stream = stream := by
  obtain ⟨line, -, rfl⟩ := List.mem_map.mp h
  rfl

theorem outputLast_linesOn (warnings lines : List String) :
    OutputLast (linesOn .errors warnings ++ linesOn .output lines) := by
  refine List.pairwise_append.mpr ⟨?_, ?_, fun p hp q hq _ => stream_of_mem_linesOn hq⟩
  · refine List.pairwise_of_forall_mem_list fun p hp q _ hout => ?_
    rw [stream_of_mem_linesOn hp] at hout
    contradiction
  · exact List.pairwise_of_forall_mem_list fun p _ q hq _ => stream_of_mem_linesOn hq

theorem run_of_request {s : Surroundings} {disk : Disk} {words : List String} {debug : Bool} {r : Request}
    (h : parse words = .ok (.request debug r)) : run s disk words = (request s disk r).outcome s debug := by
  simp only [run, h]

/-- **A run prints its whole result or nothing.** Whatever files, tables, input, platform and reader it finds, whatever git
replies and writes, a run of a command line that is understood either exits with 0, and then its output is the whole result,
printed after everything else, and its error output the preface alone; or it exits with 1, and then nothing is printed as
output, and its error output is the preface and the report of one failure. -/
theorem run_all_or_nothing (s : Surroundings) (disk : Disk) (words : List String) (debug : Bool) (r : Request)
    (h : parse words = .ok (.request debug r)) :
    let out := run s disk words
    (out.exit = 0 ∧ Answers s disk r out.stdout ∧ out.stderr = preface s r ∧ OutputLast out.pieces) ∨
    (out.exit = 1 ∧ (∀ p ∈ out.pieces, p.stream = .errors) ∧ out.stdout = "" ∧
      ∃ f report, Fails s disk r f ∧
        (f.traced (s.stack f)).Reports (if debug then .debug else .short) (colourEnabled s.terminal none) report ∧
        out.stderr = preface s r ++ report ++ "\n") := by
  intro out
  obtain ⟨p, hp, hsettles⟩ : ∃ p, request s disk r = p ∧ Settles s disk r p := ⟨_, rfl, settles_request s disk r⟩
  have hout : out = p.outcome s debug := by
    rw [← hp]
    exact run_of_request h
  have hstdout : out.stdout = textOn .output p.course.pieces := by
    rw [hout, Progress.stdout_outcome]
  have hstderr := stderr_of_settles hsettles debug
  rw [← hout] at hstderr
  cases hsettles with
  | @answered warnings lines warned last call _ hanswers =>
    obtain ⟨-, hquiet⟩ | ⟨f, hnone, -⟩ := hstderr
    · rw [output_of_warned] at hstdout
      refine .inl ⟨hout ▸ rfl, hstdout ▸ hanswers, hquiet, ?_⟩
      rw [hout]
      exact outputLast_linesOn warnings lines
    · contradiction
  | @failed warnings warned last call f _ hfails =>
    obtain ⟨hnone, -⟩ | ⟨f', hf, -, hreported⟩ := hstderr
    · contradiction
    · obtain rfl : f = f' := Option.some.inj hf
      rw [output_of_errors] at hstdout
      refine .inr ⟨hout ▸ rfl, ?_, hstdout, f, _, hfails, reports_of_fails hfails (s.stack f) _ _, ?_⟩
      · have hpieces : out.pieces = linesOn .errors warnings ++ [⟨.errors, s.report debug f⟩] := hout ▸ rfl
        intro p hmem
        rw [hpieces] at hmem
        rcases List.mem_append.mp hmem with hmem | hmem
        · exact stream_of_mem_linesOn hmem
        · rw [List.mem_singleton.mp hmem]
      · rw [hreported, Surroundings.report, Surroundings.detail, String.append_assoc]

/-- a computation for a platform that nobody knows and with tables that are not there: the warning and one report -/
theorem run_all_or_nothing_missing_tables :
    let words := ["compute", "Plan9", "--config", "none.yaml"]
    let out := run printingTwo ⟨[(["work"], .folder)]⟩ words
    parse words = .ok (.request false (.compute ⟨some "Plan9", none, none, some "none.yaml", none, false, false⟩)) ∧
    out.exit = 1 ∧ out.stdout = "" ∧
    ∃ report, out.stderr = "Warning: unknown platform \"Plan9\"; no platform exclusions applied.\n" ++ report ++ "\n" := by
  intro words out
  have hparse : parse words =
      .ok (.request false (.compute ⟨some "Plan9", none, none, some "none.yaml", none, false, false⟩)) :=
    parse_eq_of_toOption (by decide +kernel)
  have hexit : out.exit = 1 := by decide +kernel
  obtain ⟨hzero, -⟩ | ⟨-, -, hnothing, f, report, -, -, hreport⟩ :=
    run_all_or_nothing printingTwo ⟨[(["work"], .folder)]⟩ words _ _ hparse
  · exact absurd (hexit.symm.trans hzero) (by decide)
  · exact ⟨hparse, hexit, hnothing, report, hreport⟩

end ChangeImpact.Run
