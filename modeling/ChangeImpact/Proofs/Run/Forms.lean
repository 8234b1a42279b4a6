/-
The two forms of a result.

The settings are printed as assignments, or as one object spread over several lines. Which of the two is asked
for is looked at last, when the settings are known: everything that can come in the way of a run comes in the
way of both, and both print the same settings. An assignment quotes its value as it is, and the object escapes
it; reading the object takes the escapes back, whatever characters a name or a target has.

Results:
- `read?_json`: the printed object is read as the object of the settings.
- `compute_of_form`: a computation fails in both forms alike, or prints the same settings in each.
- `forms_agree`: two runs of which one asks for the object and the other for assignments.
-/
import ChangeImpact.Proofs.Json.Spread
import ChangeImpact.Proofs.Run.Routes

namespace ChangeImpact

namespace Environment

/-- the settings are fields in the order in which an object has them -/
theorem ofEntries_settings (e : Environment) :
    Fields.ofEntries (e.settings.map fun s => (s.1, Value.string s.2)) = e.settings.map fun s => (s.1, .string s.2) := by
  apply Fields.ofEntries_of_nodup
  · have hkeys : (["projects_to_build", "project_check_targets", "runtimes_to_build", "runtimes_check_targets",
        "runtimes_check_targets_needs_reconfig", "enable_cir"] : List String).Nodup := by decide
    exact hkeys
  · simp only [settings, List.map_cons, List.map_nil, List.forall_mem_cons]
    decide

/-- the printed object is read as the object of the settings -/
theorem read?_json (e : Environment) : Json.read? (printed [e.json]) = some e.toValue := by
  have hprinted : printed [e.json] = String.ofList (Json.writeLines e.settings ++ ['\n']) := by
    rw [String.ofList_append]
    simp [printed, json, String.join]
  rw [hprinted]
  exact Json.read?_writeLines e.ofEntries_settings

end Environment

namespace Run

open ChangeImpact.Action

/-- A computation fails in both forms alike, with nothing on its output, or has one environment, which it prints in the form
that is asked for. -/
theorem compute_of_form (s : Surroundings) (o : ComputeOptions) (disk : Disk) :
    (∃ warnings warned last call f, ∀ json,
      compute s { o with json } disk = ⟨⟨linesOn .errors warnings, warned, last, call⟩, some f⟩) ∨
    (∃ warnings warned last call e, ∀ json, compute s { o with json } disk =
      ⟨⟨linesOn .errors warnings ++ linesOn .output (environmentLines json e), warned, last, call⟩, none⟩) := by
  have hstarted : ∀ {platform t log later}, Started s o disk platform t log later →
      ∀ json, Started s { o with json } disk platform t log later :=
    fun h json => ⟨h.resolved, h.loaded, h.told⟩
  obtain ⟨p, hends⟩ : ∃ p, Ends s o disk p := ⟨_, compute_ends s o disk⟩
  cases hends with
  | @rejected u hp =>
    exact .inl ⟨[], [], disk, none, u.failure, fun json => compute_of_rejected (o := { o with json }) hp⟩
  | @unloaded platform e hp ht =>
    refine .inl ⟨platformWarnings platform, s.tablesWarnings disk o.config, disk, none, e.failure, fun json => ?_⟩
    exact compute_of_unloaded (o := { o with json }) hp ht
  | @unopened platform t e hp ht hl =>
    refine .inl ⟨platformWarnings platform, s.tablesWarnings disk o.config, disk, none, e.failure, fun json => ?_⟩
    exact compute_of_unopened (o := { o with json }) hp ht hl
  | @untold platform t log made later e hp ht hl htold =>
    refine .inl ⟨platformWarnings platform, s.tablesWarnings disk o.config, later, none, e.failure, fun json => ?_⟩
    exact compute_of_untold (o := { o with json }) hp ht hl htold
  | @unlisted platform t log later call f h hc =>
    refine .inl ⟨platformWarnings platform, s.tablesWarnings disk o.config, s.afterCall call later, call, f, fun json => ?_⟩
    exact compute_of_unlisted (hstarted h json) hc
  | @unfinished platform t log later last call files e h hc htold =>
    refine .inl ⟨platformWarnings platform, s.tablesWarnings disk o.config, last, call, e.failure, fun json => ?_⟩
    exact compute_of_unfinished (hstarted h json) hc htold
  | @finished platform t log later last call files h hc htold =>
    refine .inr ⟨platformWarnings platform, s.tablesWarnings disk o.config, last, call,
      (t.model.scope files platform).environment, fun json => ?_⟩
    exact compute_of_finished (hstarted h json) hc htold

/-- **Both forms say the same.** For all tables, inputs, platforms and surroundings, a run that asks for the object and one
that asks for assignments exit alike, with the same error output, the same disk and the same call to git. When they succeed
there are six settings, with the same names in the same order for all runs: the one output is JSON for an object with exactly
these fields, and the other is one line for each, its name with its value in single quotes. When they fail, both outputs are
empty. -/
theorem forms_agree (s : Surroundings) (disk : Disk) (words others : List String) (debug : Bool) (o : ComputeOptions)
    (hobject : parse words = .ok (.request debug (.compute { o with json := true })))
    (hlines : parse others = .ok (.request debug (.compute { o with json := false }))) :
    let object := run s disk words
    let lines := run s disk others
    (object.exit = lines.exit ∧ object.stderr = lines.stderr ∧ object.disk = lines.disk ∧ object.call = lines.call) ∧
    (lines.exit = 0 → ∃ settings : List (String × String),
      settings.map Prod.fst = ["projects_to_build", "project_check_targets", "runtimes_to_build", "runtimes_check_targets",
        "runtimes_check_targets_needs_reconfig", "enable_cir"] ∧
      Json.read? object.stdout = some (.object (settings.map fun e => (e.1, .string e.2))) ∧
      lines.stdout = String.join (settings.map fun e => e.1 ++ "='" ++ e.2 ++ "'" ++ "\n")) ∧
    (lines.exit ≠ 0 → object.stdout = "" ∧ lines.stdout = "") := by
  intro object lines
  have hobject : object = (compute s { o with json := true } disk).outcome s debug := run_of_parse hobject
  have hlines : lines = (compute s { o with json := false } disk).outcome s debug := run_of_parse hlines
  rcases compute_of_form s o disk with ⟨warnings, warned, last, call, f, hf⟩ | ⟨warnings, warned, last, call, e, he⟩
  · rw [hf] at hobject hlines
    have hnothing : lines.stdout = "" := by rw [hlines, Progress.stdout_outcome, output_of_errors]
    rw [hobject.trans hlines.symm]
    refine ⟨⟨rfl, rfl, rfl, rfl⟩, fun hexit => ?_, fun _ => ⟨hnothing, hnothing⟩⟩
    rw [hlines, Progress.exit_outcome] at hexit
    contradiction
  · rw [he] at hobject hlines
    have hread : Json.read? object.stdout = some (.object (e.settings.map fun e => (e.1, .string e.2))) := by
      rw [hobject, Progress.stdout_outcome, output_of_warned]
      exact e.read?_json
    have hprinted : lines.stdout = String.join (e.settings.map fun e => e.1 ++ "='" ++ e.2 ++ "'" ++ "\n") := by
      rw [hlines, Progress.stdout_outcome, output_of_warned]
      simp only [environmentLines, printed, Environment.assignments, Environment.assignment, Bool.false_eq_true, if_false,
        List.map_map, Function.comp_def]
    refine ⟨⟨?_, ?_, ?_, ?_⟩, fun _ => ⟨e.settings, rfl, hread, hprinted⟩, fun hexit => ?_⟩
    · rw [hobject, hlines, Progress.exit_outcome, Progress.exit_outcome]
    · rw [hobject, hlines]
      exact (errors_of_warned warnings _).trans (errors_of_warned warnings _).symm
    · rw [hobject, hlines, Progress.disk_outcome, Progress.disk_outcome]
    · rw [hobject, hlines, Progress.call_outcome, Progress.call_outcome]
    · rw [hlines, Progress.exit_outcome] at hexit
      contradiction

/-- names with quotes of both kinds and a target with a backslash -/
theorem forms_agree_quoted :
    let tables := "projects: [a'b, 'c\"d']\ncheck_targets:\n  a'b: t\\u\n"
    let disk : Disk := ⟨[(["work"], .folder), (["work", "tables.yaml"], .file tables)]⟩
    let s := { printingTwo with input := [.text "a'b/x.c\n"] }
    let words := ["compute", "Linux", "--config", "tables.yaml", "--json"]
    let others := ["compute", "Linux", "--config", "tables.yaml"]
    (run s disk others).stdout = "projects_to_build='a'b'\nproject_check_targets='t\\u'\nruntimes_to_build=''\n" ++
      "runtimes_check_targets=''\nruntimes_check_targets_needs_reconfig=''\nenable_cir='OFF'\n" ∧
    ∃ settings : List (String × String),
      Json.read? (run s disk words).stdout = some (.object (settings.map fun e => (e.1, .string e.2))) ∧
      (run s disk others).stdout = String.join (settings.map fun e => e.1 ++ "='" ++ e.2 ++ "'" ++ "\n") := by
  intro tables disk s words others
  let o : ComputeOptions := ⟨some "Linux", none, none, some "tables.yaml", none, false, false⟩
  have hobject : parse words = .ok (.request false (.compute { o with json := true })) :=
    parse_eq_of_toOption (by decide +kernel)
  have hlines : parse others = .ok (.request false (.compute { o with json := false })) :=
    parse_eq_of_toOption (by decide +kernel)
  have hexit : (run s disk others).exit = 0 := by decide +kernel
  obtain ⟨-, hsuccess, -⟩ := forms_agree s disk words others false o hobject hlines
  obtain ⟨settings, -, hread, hprinted⟩ := hsuccess hexit
  exact ⟨by decide +kernel, settings, hread, hprinted⟩

end Run

end ChangeImpact
