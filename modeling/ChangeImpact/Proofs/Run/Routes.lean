/-
The ways in which changed files come in.

A run learns the changed files from the lines of its input, from what git prints, or from the words
of its command line. Git's output is cut at line feeds only, trimmed and rid of blank lines before
anyone looks at it, and it has lost its last line end; the input is cut at carriage returns as well
and kept as it is. What counts of a file is its one form, and the one forms are the same.

For `compute` the files matter only once the tables are loaded and the log is open. `compute_cases`
says so: a run either ends before, and then neither its input nor its range has anything to do with
it, or it goes on from the files it is given (`concluded`), on a disk that has only grown.

Results:
- `cleanAll_filterMap_present`, `cleanAll_cut`: the lists of files have the same one forms.
- `compute_of_printed`: what git prints does what the same text does on the input.
- `projects_of_assembled`: words do what the same lines do on the input.
- `routes_agree`: all of it together, for whole runs.

Git may write while it is asked. What a run prints then is the same as long as git leaves the way to the
log's file as it was, and what the run leaves is the same if git only reads.
-/
import ChangeImpact.Proofs.Run.Input
import ChangeImpact.Proofs.Run.Stages
import ChangeImpact.Proofs.Text.LineEnds
import ChangeImpact.Tables.Bundled

namespace ChangeImpact

open ChangeImpact.Text

/-! ## Lists of files -/

/-- blank paths and the blank characters around a path have no part in the one forms -/
theorem cleanAll_filterMap_present (paths : List String) : cleanAll (paths.filterMap present?) = cleanAll paths := by
  ext x
  rw [mem_cleanAll, mem_cleanAll]
  refine and_congr_right fun hx => ?_
  constructor
  · rintro ⟨f, hf, hclean⟩
    obtain ⟨path, hpath, hpresent⟩ := List.mem_filterMap.mp hf
    obtain ⟨-, rfl⟩ := present?_eq_some_iff.mp hpresent
    exact ⟨path, hpath, (clean_trim path).symm.trans hclean⟩
  · rintro ⟨path, hpath, hclean⟩
    have hkept : trim path ≠ "" := by
      intro hblank
      rw [← clean_trim, hblank] at hclean
      exact hx hclean.symm
    have hpresent : present? path = some (trim path) := present?_eq_some_iff.mpr ⟨hkept, rfl⟩
    exact ⟨trim path, List.mem_filterMap.mpr ⟨path, hpath, hpresent⟩, (clean_trim path).trans hclean⟩

theorem cleanAll_append_blank (paths : List String) : cleanAll (paths ++ [""]) = cleanAll paths := by
  ext x
  rw [mem_cleanAll, mem_cleanAll]
  refine and_congr_right fun hx => ?_
  constructor
  · rintro ⟨f, hf, hclean⟩
    rcases List.mem_append.mp hf with hf | hf
    · exact ⟨f, hf, hclean⟩
    · obtain rfl : f = "" := by simpa using hf
      exact absurd hclean.symm hx
  · rintro ⟨f, hf, hclean⟩
    exact ⟨f, List.mem_append_left _ hf, hclean⟩

/-- a text that has lost at most its last line end has the same files -/
theorem cleanAll_cut {t cut : String} (h : t = cut ∨ ∃ e : LineEnd, t = cut ++ e.text) :
    cleanAll ((splitAt '\n' cut).filterMap present?) = cleanAll (splitLines t) := by
  rw [cleanAll_filterMap_present, cleanAll_eq_of_trim (trim_splitLines t)]
  rcases h with rfl | ⟨e, rfl⟩
  · rfl
  · rw [cleanAll_eq_of_trim (trim_splitAt_ended cut e), cleanAll_append_blank]

/-! ## What git prints -/

namespace Git

/-- git answers a call with a text, and exits with 0 -/
def Prints (git : Program) (call : Call) (text : String) : Prop :=
  ∃ r, git call = some r ∧ r.exit = 0 ∧ r.stdout = text

theorem eq_or_exists_lineEnd (cs : List Char) :
    cs = withoutLineEnd cs ∨ ∃ e : LineEnd, cs = withoutLineEnd cs ++ e.text.toList := by
  unfold withoutLineEnd
  split
  · next rest hrest =>
    refine .inr ⟨.returnFeed, ?_⟩
    rw [← List.reverse_reverse cs, hrest]
    simp [LineEnd.text]
  · next rest _ hrest =>
    refine .inr ⟨.feed, ?_⟩
    rw [← List.reverse_reverse cs, hrest]
    simp [LineEnd.text]
  · exact .inl rfl

theorem cleanAll_namesIn (t : String) : cleanAll (namesIn t) = cleanAll (splitLines t) := by
  refine cleanAll_cut ?_
  rcases eq_or_exists_lineEnd t.toList with h | ⟨e, h⟩
  · exact .inl (by rw [← h, String.ofList_toList])
  · refine .inr ⟨e, String.toList_inj.mp ?_⟩
    rw [String.toList_append, String.toList_ofList]
    exact h

theorem changedFiles_of_prints {git : Program} {disk : Disk} {directory range text : String}
    (hfree : obstacle? disk directory range = none) (h : Prints git ⟨directory, arguments range⟩ text) :
    changedFiles git disk directory range = (some ⟨directory, arguments range⟩, .ok (namesIn text)) := by
  obtain ⟨r, hr, hexit, rfl⟩ := h
  simp only [changedFiles, hfree, hr, hexit, if_true]

theorem changedFiles_of_obstacle {git : Program} {disk : Disk} {directory range : String} {p : Problem}
    (h : obstacle? disk directory range = some p) : changedFiles git disk directory range = (none, .error p) := by
  simp only [changedFiles, h]

end Git

/-! ## Computing -/

/-- two commands that both print the same result, or both fail -/
structure Progress.Concurs (p q : Progress) : Prop where
  printed : textOn .output p.course.pieces = textOn .output q.course.pieces
  failed : p.failure.isNone = q.failure.isNone

theorem Progress.Concurs.refl (p : Progress) : p.Concurs p :=
  ⟨rfl, rfl⟩

/-- the report of a failure is no output -/
theorem Progress.stdout_outcome (p : Progress) (s : Surroundings) (debug : Bool) :
    (p.outcome s debug).stdout = textOn .output p.course.pieces := by
  unfold Progress.outcome
  split
  · rfl
  · rw [Outcome.stdout, textOn_append]
    exact String.append_empty

theorem Progress.exit_outcome (p : Progress) (s : Surroundings) (debug : Bool) :
    (p.outcome s debug).exit = if p.failure.isNone then 0 else 1 := by
  unfold Progress.outcome
  split
  · next h => rw [h]; rfl
  · next h => rw [h]; rfl

theorem Progress.disk_outcome (p : Progress) (s : Surroundings) (debug : Bool) :
    (p.outcome s debug).disk = p.course.disk := by
  unfold Progress.outcome
  split <;> rfl

theorem Progress.call_outcome (p : Progress) (s : Surroundings) (debug : Bool) :
    (p.outcome s debug).call = p.course.call := by
  unfold Progress.outcome
  split <;> rfl

/-- the directory that git is asked in -/
def Surroundings.repository (s : Surroundings) (repo : Option String) : String :=
  Path.absolute s.directoryPath (repo.getD s.directoryPath)

namespace Run

/-- Only the one forms of the files decide what a run prints at last, if its log leads to the same file after either call
to git. -/
theorem concluded_concurs (s : Surroundings) (config : Option String) (json : Bool) (t : Loaded) (platform : String)
    {log : Option Log} (found : Disk) {later : Disk} {files others : List String} (h : cleanAll files = cleanAll others)
    {call call' : Option Git.Call}
    (hway : ∀ l, log = some l →
      (s.afterCall call later).target? s.directory l.path = (s.afterCall call' later).target? s.directory l.path) :
    (concluded s config json t platform log found later (call, .ok files)).Concurs
      (concluded s config json t platform log found later (call', .ok others)) := by
  have htrouble := @Log.isNone_tellIfAny log s.directory _ _ hway s.clock 1 ((t.model.scope others platform).events platform)
    ((t.model.scope others platform).events platform) rfl
  simp only [concluded, t.model.scope_eq_of_cleanAll h platform]
  generalize Log.tellIfAny log s.directory s.clock 1 ((t.model.scope others platform).events platform)
    (s.afterCall call later) = told at htrouble ⊢
  generalize Log.tellIfAny log s.directory s.clock 1 ((t.model.scope others platform).events platform)
    (s.afterCall call' later) = told' at htrouble ⊢
  obtain ⟨last, trouble⟩ := told
  obtain ⟨last', trouble'⟩ := told'
  cases trouble with
  | none =>
    obtain rfl : trouble' = none := Option.isNone_iff_eq_none.mp htrouble.symm
    exact ⟨rfl, rfl⟩
  | some e =>
    cases trouble' with
    | none => cases htrouble
    | some e' => exact ⟨rfl, rfl⟩

/-- and they decide what it leaves, if both calls leave the same -/
theorem disk_concluded (s : Surroundings) (config : Option String) (json : Bool) (t : Loaded) (platform : String)
    (log : Option Log) (found : Disk) {later : Disk} {files others : List String} (h : cleanAll files = cleanAll others)
    {call call' : Option Git.Call} (hleft : s.afterCall call later = s.afterCall call' later) :
    (concluded s config json t platform log found later (call, .ok files)).course.disk =
      (concluded s config json t platform log found later (call', .ok others)).course.disk := by
  simp only [concluded, t.model.scope_eq_of_cleanAll h platform, hleft]
  split <;> rfl

theorem concluded_of_input (s : Surroundings) (input : List Chunk) (config : Option String) (json : Bool) (t : Loaded)
    (platform : String) (log : Option Log) (found later : Disk)
    (listed : Option Git.Call × Except Failure (List String)) :
    concluded { s with input := input } config json t platform log found later listed =
      concluded s config json t platform log found later listed := by
  simp only [concluded, stopped, completed, begun, tablesWarnings_of_input, Surroundings.afterCall]

/-- the path of a log that was opened is the one that was given -/
theorem path_of_opened {path : Option String} {context : List (String × Value)} {directory : Location} {d made : Disk}
    {l : Log} (h : Log.opened path context directory d = .ok (some l, made)) : path.bind present? = some l.path := by
  rcases Log.opened_cases h with ⟨-, hl, -⟩ | ⟨p, hp, hl, -⟩
  · contradiction
  · obtain rfl := Option.some.inj hl
    exact hp

theorem Started.path {s : Surroundings} {o : ComputeOptions} {disk later : Disk} {platform : String} {t : Loaded}
    {log : Option Log} (h : Started s o disk platform t log later) (l : Log) (hl : log = some l) :
    o.logFile.bind present? = some l.path := by
  obtain ⟨made, hopened, -⟩ := h.told
  exact path_of_opened (hl ▸ hopened)

/-- A run of `compute` ends before it looks at its input or its range, or goes on from the changed files. -/
theorem compute_cases (s : Surroundings) (o : ComputeOptions) (disk : Disk) :
    (∃ p : Progress, p.course.call = none ∧ ∀ input diff repo,
      compute { s with input := input } { o with diff := diff, repo := repo } disk = p) ∨
    (∃ t platform log later, disk.Grows later ∧ (∀ l, log = some l → o.logFile.bind present? = some l.path) ∧
      ∀ input diff repo, compute { s with input := input } { o with diff := diff, repo := repo } disk =
        concluded s o.config o.json t platform log disk later
          ({ s with input := input }.changedFiles later diff repo)) := by
  have hlater : ∀ {platform t log later}, Started s o disk platform t log later → ∀ input diff repo,
      compute { s with input := input } { o with diff := diff, repo := repo } disk =
        concluded s o.config o.json t platform log disk later
          ({ s with input := input }.changedFiles later diff repo) := by
    intro platform t log later h input diff repo
    have hstarted : Started { s with input := input } { o with diff := diff, repo := repo } disk platform t log later :=
      ⟨h.resolved, (tables_of_input s input disk o.config).trans h.loaded, h.told⟩
    rw [compute_of_started hstarted, concluded_of_input]
  have hstopped : ∀ {platform last f} input, stopped { s with input := input } o.config platform disk last none f =
      stopped s o.config platform disk last none f := by
    intro platform last f input
    simp only [stopped, begun, tablesWarnings_of_input]
  have htables : ∀ input, { s with input := input }.tables disk o.config = s.tables disk o.config :=
    fun input => tables_of_input s input disk o.config
  obtain ⟨p, hends⟩ : ∃ p, Ends s o disk p := ⟨_, compute_ends s o disk⟩
  cases hends with
  | @rejected u hp =>
    refine .inl ⟨⟨⟨[], [], disk, none⟩, some u.failure⟩, rfl, fun input diff repo => ?_⟩
    exact compute_of_rejected (s := { s with input := input }) (o := { o with diff := diff, repo := repo }) hp
  | @unloaded platform e hp ht =>
    refine .inl ⟨stopped s o.config platform disk disk none e.failure, rfl, fun input diff repo => ?_⟩
    rw [← hstopped input]
    exact compute_of_unloaded (s := { s with input := input }) (o := { o with diff := diff, repo := repo }) hp
      ((htables input).trans ht)
  | @unopened platform t e hp ht hl =>
    refine .inl ⟨stopped s o.config platform disk disk none e.failure, rfl, fun input diff repo => ?_⟩
    rw [← hstopped input]
    exact compute_of_unopened (s := { s with input := input }) (o := { o with diff := diff, repo := repo }) hp
      ((htables input).trans ht) hl
  | @untold platform t log made later e hp ht hl htold =>
    refine .inl ⟨stopped s o.config platform disk later none e.failure, rfl, fun input diff repo => ?_⟩
    rw [← hstopped input]
    exact compute_of_untold (s := { s with input := input }) (o := { o with diff := diff, repo := repo }) hp
      ((htables input).trans ht) hl htold
  | unlisted h _ => exact .inr ⟨_, _, _, _, h.grows, h.path, hlater h⟩
  | unfinished h _ _ => exact .inr ⟨_, _, _, _, h.grows, h.path, hlater h⟩
  | finished h _ _ => exact .inr ⟨_, _, _, _, h.grows, h.path, hlater h⟩

theorem changedFiles_of_prints {s : Surroundings} {disk : Disk} {range t : String} {repo : Option String}
    (hrange : range ≠ "") (hfree : Git.obstacle? disk (s.repository repo) range = none)
    (hprints : Git.Prints s.git ⟨s.repository repo, Git.arguments range⟩ t) :
    s.changedFiles disk (some range) repo =
      (some ⟨s.repository repo, Git.arguments range⟩, .ok (Git.namesIn t)) := by
  have hfilter : (some range).filter (· ≠ "") = some range := by simp [hrange]
  have hcall := Git.changedFiles_of_prints hfree hprints
  unfold Surroundings.repository at hcall
  simp only [Surroundings.changedFiles, hfilter, hcall]
  rfl

theorem changedFiles_of_obstacle {s : Surroundings} {disk : Disk} {range : String} {repo : Option String} {p : Git.Problem}
    (hrange : range ≠ "") (h : Git.obstacle? disk (s.repository repo) range = some p) :
    s.changedFiles disk (some range) repo = (none, .error (p.failure (s.repository repo) range)) := by
  have hfilter : (some range).filter (· ≠ "") = some range := by simp [hrange]
  have hcall : Git.changedFiles s.git disk (s.repository repo) range = _ := Git.changedFiles_of_obstacle h
  unfold Surroundings.repository at hcall
  simp only [Surroundings.changedFiles, hfilter, hcall]
  rfl

/-- **What git prints does what the same text does on the input.** Git can be asked from the outset, or the run did ask it;
and it leaves the way to the log as it was. If git only reads then the two runs leave the same disk, too. -/
theorem compute_of_printed {s : Surroundings} {o : ComputeOptions} {disk : Disk} {range t : String} {input : List Chunk}
    (hrange : range ≠ "") (hprints : Git.Prints s.git ⟨s.repository o.repo, Git.arguments range⟩ t)
    (hasked : Git.obstacle? disk (s.repository o.repo) range = none ∨
      (compute s { o with diff := some range } disk).course.call ≠ none)
    (hinput : receive input = t) (repo : Option String) :
    let asking := compute s { o with diff := some range } disk
    let given := compute { s with input := input } { o with diff := none, repo := repo } disk
    ((∀ path, o.logFile.bind present? = some path → s.KeepsWay ⟨s.repository o.repo, Git.arguments range⟩ path) →
      asking.Concurs given) ∧
    (s.OnlyReads ⟨s.repository o.repo, Git.arguments range⟩ → asking.course.disk = given.course.disk) := by
  intro asking given
  have hself : { s with input := s.input } = s := rfl
  rcases compute_cases s o disk with ⟨p, hcall, hp⟩ | ⟨tables, platform, log, later, hgrows, hpath, hlate⟩
  · have hasking : asking = p := by
      rw [← hp s.input (some range) o.repo, hself]
    have hgiven : given = p := hp input none repo
    rw [hasking, hgiven]
    exact ⟨fun _ => .refl p, fun _ => rfl⟩
  · have hasking : asking = concluded s o.config o.json tables platform log disk later
        (s.changedFiles later (some range) o.repo) := by
      have hlater := hlate s.input (some range) o.repo
      rw [hself] at hlater
      exact hlater
    have hfree : Git.obstacle? later (s.repository o.repo) range = none := by
      rcases hasked with hfree | hasked
      · exact Git.obstacle?_of_grows hgrows hfree
      · cases hfree : Git.obstacle? later (s.repository o.repo) range with
        | none => rfl
        | some problem =>
          have hnone : asking.course.call = none := by
            rw [hasking, changedFiles_of_obstacle hrange hfree]
            rfl
          exact absurd hnone hasked
    have hread : { s with input := input }.changedFiles later none repo = (none, .ok (splitLines t)) := by
      rw [← hinput]
      rfl
    have hgiven : given = concluded s o.config o.json tables platform log disk later (none, .ok (splitLines t)) := by
      rw [← hread]
      exact hlate input none repo
    rw [changedFiles_of_prints hrange hfree hprints] at hasking
    rw [hasking, hgiven]
    have hnames := Git.cleanAll_namesIn t
    constructor
    · intro hway
      exact concluded_concurs s o.config o.json tables platform disk hnames fun l hl => hway l.path (hpath l hl) later
    · intro hreads
      exact disk_concluded s o.config o.json tables platform log disk hnames (hreads later)

/-! ## Listing projects -/

theorem projectsOf_eq_of_cleanAll (m : Model) {files others : List String} (h : cleanAll files = cleanAll others) :
    projectsOf m files = projectsOf m others := by
  unfold projectsOf
  rw [h]

theorem cleanAll_splitLines_assembled {first : String} {rest : List (LineEnd × String)} (hfirst : '\n' ∉ first.toList)
    (hrest : ∀ l ∈ rest, '\n' ∉ l.2.toList) :
    cleanAll (splitLines (assembled first rest)) = cleanAll (first :: rest.map Prod.snd) :=
  cleanAll_eq_of_trim (trim_splitLines_assembled hfirst hrest)

/-- **Words do what the same lines do on the input.** -/
theorem projects_of_assembled {s : Surroundings} {first : String} {rest : List (LineEnd × String)} {input : List Chunk}
    (hfirst : '\n' ∉ first.toList) (hrest : ∀ l ∈ rest, '\n' ∉ l.2.toList)
    (hinput : receive input = assembled first rest) (config : Option String) (disk : Disk) :
    projects s config (first :: rest.map Prod.snd) disk = projects { s with input := input } config [] disk := by
  have hlines : { s with input := input }.inputLines = splitLines (assembled first rest) := by rw [← hinput]; rfl
  have htables := tables_of_input s input disk config
  have hsame := cleanAll_splitLines_assembled hfirst hrest
  cases ht : s.tables disk config with
  | error e => rw [projects_of_unloaded ht, projects_of_unloaded (htables.trans ht), tablesWarnings_of_input s input]
  | ok t =>
    rw [projects_of_loaded ht, projects_of_loaded (htables.trans ht), tablesWarnings_of_input s input, hlines]
    simp only [List.isEmpty_cons, List.isEmpty_nil, if_true, Bool.false_eq_true, if_false,
      projectsOf_eq_of_cleanAll t.model hsame]

/-! ## Whole runs -/

theorem run_of_parse {s : Surroundings} {disk : Disk} {words : List String} {debug : Bool} {o : ComputeOptions}
    (h : parse words = .ok (.request debug (.compute o))) :
    run s disk words = (compute s o disk).outcome s debug := by
  simp only [run, h, request]

/-- **The ways in which changed files come in agree.** A text has the same files whether it is cut into lines as the
input is or as git's output is, with or without its last line end. A run that asks git and one that is given on its
input what git prints print the same and exit alike, whatever git writes as long as the way to the log stays, and they leave
the same disk if git only reads. Files given as words belong to the same
projects as on the input, one on a line with either line end, and these are the projects that the scope of the change
counts as touched. -/
theorem routes_agree :
    (∀ t cut : String, (t = cut ∨ ∃ e : LineEnd, t = cut ++ e.text) →
      cleanAll ((splitAt '\n' cut).filterMap present?) = cleanAll (splitLines t)) ∧
    (∀ (git : Git.Program) (disk : Disk) (directory range t : String), Git.obstacle? disk directory range = none →
      Git.Prints git ⟨directory, Git.arguments range⟩ t →
      ∃ files, Git.changedFiles git disk directory range = (some ⟨directory, Git.arguments range⟩, .ok files) ∧
        cleanAll files = cleanAll (splitLines t)) ∧
    (∀ (s : Surroundings) (disk : Disk) (words others : List String) (debug debug' : Bool) (o : ComputeOptions)
        (repo : Option String) (range t : String) (input : List Chunk),
      parse words = .ok (.request debug (.compute { o with diff := some range })) → range ≠ "" →
      parse others = .ok (.request debug' (.compute { o with diff := none, repo := repo })) →
      Git.Prints s.git ⟨s.repository o.repo, Git.arguments range⟩ t →
      Git.obstacle? disk (s.repository o.repo) range = none ∨ (run s disk words).call ≠ none →
      receive input = t →
      ((∀ path, o.logFile.bind present? = some path → s.KeepsWay ⟨s.repository o.repo, Git.arguments range⟩ path) →
        (run s disk words).stdout = (run { s with input := input } disk others).stdout ∧
          (run s disk words).exit = (run { s with input := input } disk others).exit) ∧
      (s.OnlyReads ⟨s.repository o.repo, Git.arguments range⟩ →
        (run s disk words).disk = (run { s with input := input } disk others).disk)) ∧
    (∀ (s : Surroundings) (disk : Disk) (config : Option String) (first : String) (rest : List (LineEnd × String))
        (input : List Chunk),
      '\n' ∉ first.toList → (∀ l ∈ rest, '\n' ∉ l.2.toList) → receive input = assembled first rest →
      projects s config (first :: rest.map Prod.snd) disk = projects { s with input := input } config [] disk ∧
      ∀ (m : Model) (platform : String),
        projectsOf m (first :: rest.map Prod.snd) = projectsOf m (splitLines (assembled first rest)) ∧
        projectsOf m (first :: rest.map Prod.snd) = (m.scope (first :: rest.map Prod.snd) platform).touched.names) := by
  refine ⟨fun t cut h => cleanAll_cut h, fun git disk directory range t hfree hprints => ?_, ?_, ?_⟩
  · exact ⟨Git.namesIn t, Git.changedFiles_of_prints hfree hprints, Git.cleanAll_namesIn t⟩
  · intro s disk words others debug debug' o repo range t input hwords hrange hothers hprints hasked hinput
    rw [run_of_parse hwords, Progress.call_outcome] at hasked
    obtain ⟨hconcur, hdisk⟩ := compute_of_printed hrange hprints hasked hinput repo
    simp only [run_of_parse hwords, run_of_parse hothers, Progress.stdout_outcome, Progress.exit_outcome,
      Progress.disk_outcome]
    refine ⟨fun hway => ?_, hdisk⟩
    obtain ⟨hprinted, hfailed⟩ := hconcur hway
    exact ⟨hprinted, by rw [hfailed]⟩
  · intro s disk config first rest input hfirst hrest hinput
    refine ⟨projects_of_assembled hfirst hrest hinput config disk, fun m platform => ⟨?_, rfl⟩⟩
    exact (projectsOf_eq_of_cleanAll m (cleanAll_splitLines_assembled hfirst hrest)).symm

theorem eq_ok_of_toOption {ε α : Type} {e : Except ε α} {a : α} (h : e.toOption = some a) : e = .ok a := by
  cases e with
  | error e => cases h
  | ok b => rw [Option.some.inj h]

/-- a command line that is understood, told from what the reader can compute -/
theorem parse_eq_of_toOption {words : List String} {i : Invocation} (h : (parse words).toOption = some i) :
    parse words = .ok i :=
  eq_ok_of_toOption h

/-- git installed so that it always prints two names, the second with a carriage return, in the directory of a run -/
def printingTwo : Surroundings where
  directory := ["work"]
  root := "/app"
  systemName := "Linux"
  configPath := none
  input := []
  terminal := false
  git := fun _ => some ⟨0, "clang/lib/Sema/Sema.cpp\nllvm/lib/IR/Value.cpp\r\n", ""⟩
  clock := fun _ => ⟨0, Nat.zero_le farthest⟩

theorem routes_agree_printingTwo :
    let disk : Disk := ⟨[(["work"], .folder), (["work", "tables.yaml"], .file Bundled.text)]⟩
    let input : List Chunk := [.text "clang/lib/Sema/Sema.cpp\nllvm/lib/IR/Value.cpp\r\n"]
    (run printingTwo disk ["compute", "Linux", "--config", "tables.yaml", "--diff", "main..HEAD"]).stdout =
      (run { printingTwo with input := input } disk ["compute", "Linux", "--config", "tables.yaml"]).stdout ∧
    projects printingTwo none ["clang/lib/Sema/Sema.cpp", "llvm/lib/IR/Value.cpp", ""] disk =
      projects { printingTwo with input := input } none [] disk ∧
    cleanAll ((splitAt '\n' "clang/a.c\n\n").filterMap present?) = cleanAll (splitLines "clang/a.c\n\n\r\n") := by
  intro disk input
  obtain ⟨hlists, -, hcompute, hprojects⟩ := routes_agree
  let o : ComputeOptions := ⟨some "Linux", none, none, some "tables.yaml", none, false, false⟩
  have hprints : Git.Prints printingTwo.git ⟨printingTwo.repository none, Git.arguments "main..HEAD"⟩ (receive input) :=
    ⟨_, rfl, rfl, rfl⟩
  have hdirectory : printingTwo.repository none = "/work" := by decide
  have hfree : Git.obstacle? disk (printingTwo.repository none) "main..HEAD" = none := by
    rw [hdirectory]
    rfl
  have hdiff : parse ["compute", "Linux", "--config", "tables.yaml", "--diff", "main..HEAD"] =
      .ok (.request false (.compute { o with diff := some "main..HEAD" })) := parse_eq_of_toOption (by decide +kernel)
  have hplain : parse ["compute", "Linux", "--config", "tables.yaml"] = .ok (.request false (.compute o)) :=
    parse_eq_of_toOption (by decide +kernel)
  refine ⟨?_, ?_, ?_⟩
  · have hsame := hcompute printingTwo disk _ _ false false o none "main..HEAD" _ input hdiff (by decide) hplain hprints
      (.inl hfree) rfl
    exact (hsame.1 fun _ _ _ => rfl).1
  · exact (hprojects printingTwo disk none "clang/lib/Sema/Sema.cpp"
      [(.feed, "llvm/lib/IR/Value.cpp"), (.returnFeed, "")] input (by decide) (by decide) (by decide)).1
  · exact hlists "clang/a.c\n\n\r\n" _ (.inr ⟨.returnFeed, by decide⟩)

end Run

end ChangeImpact
