/-
The three commands.

Each command is an `Action`, which goes on until something fails. `compute` checks the platform first and
warns of one that nobody knows, then loads the tables, opens the log and tells it of them, gathers the
changed files, works out their scope while it tells the log, and prints the settings at last. The two other
commands load the tables and print.
-/
import ChangeImpact.CommandLine.Request
import ChangeImpact.Run.Action
import ChangeImpact.Run.Log
import ChangeImpact.Run.Surroundings
import ChangeImpact.Selection.Scope

namespace ChangeImpact

namespace Run

open ChangeImpact.Action

/-! ## Steps -/

/-- loads the tables that are meant -/
def loadTables (s : Surroundings) (config : Option String) : Action Loaded := do
  let disk := (← get).disk
  modify fun c => { c with warned := c.warned ++ s.tablesWarnings disk config }
  attempt ((s.tables disk config).mapError TablesError.failure)

/-- what the records of this command have in common -/
def logContext : List (String × Value) :=
  [("command", .string Command.compute.name)]

/-- opens the log at a path, if there is one -/
def openLog (s : Surroundings) (path : Option String) : Action (Option Log) := do
  let (log, disk) ← attempt ((Log.opened path logContext s.directory (← get).disk).mapError DiskError.failure)
  modify fun c => { c with disk }
  return log

/-- tells the log of events, of which the first is number `n` of the run -/
def tellLog (s : Surroundings) (log : Option Log) (n : Nat) (es : List Event) : Action Unit := do
  let (disk, trouble) := Log.tellIfAny log s.directory s.clock n es (← get).disk
  modify fun c => { c with disk }
  match trouble with
  | none => return
  | some e => throw e.failure

/-- lists the changed files -/
def listFiles (s : Surroundings) (range repository : Option String) : Action (List String) := do
  let (call, files) := s.changedFiles (← get).disk range repository
  modify fun c => { c with call, disk := s.afterCall call c.disk }
  attempt files

/-! ## What to build -/

/-- the warning about a platform that has no exclusions -/
def platformWarnings (platform : String) : List String :=
  if (Platform.ofName? platform).isSome then []
  else ["Warning: unknown platform \"" ++ platform ++ "\"; no platform exclusions applied."]

/-- the event of tables having been loaded -/
def loadedEvent (path : String) : Event :=
  ⟨"config.loaded", some [("path", .string path)]⟩

/-- the environment as it is printed -/
def environmentLines (json : Bool) (e : Environment) : List String :=
  if json then [e.json] else e.assignments

def computing (s : Surroundings) (o : ComputeOptions) : Action Unit := do
  let platform ← attempt ((Platform.resolve o.platform s.systemName o.strict).mapError Platform.Unknown.failure)
  printLines .errors (platformWarnings platform)
  let t ← loadTables s o.config
  let log ← openLog s o.logFile
  tellLog s log 0 [loadedEvent t.path]
  let files ← listFiles s o.diff o.repo
  let scope := t.model.scope files platform
  tellLog s log 1 (scope.events platform)
  printLines .output (environmentLines o.json scope.environment)

def compute (s : Surroundings) (o : ComputeOptions) (disk : Disk) : Progress :=
  (computing s o).progress disk

/-! ## Which projects -/

/-- the projects that some files belong to, in their order -/
def projectsOf (m : Model) (files : List String) : List String :=
  (m.touched (cleanAll files).names).names

def projects (s : Surroundings) (config : Option String) (files : List String) (disk : Disk) : Progress :=
  Action.progress (do
    let t ← loadTables s config
    printLines .output (projectsOf t.model (if files.isEmpty then s.inputLines else files))) disk

/-! ## What the tables hold -/

/-- the lines about tables that were loaded -/
def tablesSummary (t : Loaded) : List String :=
  ["Selection config OK: " ++ t.path ++ " (" ++ t.source.name ++ ")",
   "  " ++ toString t.model.projects.size ++ " projects, " ++ toString t.model.runtimes.size ++ " runtimes, " ++
     toString t.model.checkTargets.entries.length ++ " check targets, " ++ toString t.model.rules.length ++
     " meta-project rules"] ++
  Platform.all.map fun p => "  " ++ p.name ++ ": " ++ toString (t.model.excluded.get p).size ++ " excluded"

def check (s : Surroundings) (config : Option String) (disk : Disk) : Progress :=
  Action.progress (do
    let t ← loadTables s config
    printLines .output (tablesSummary t)) disk

/-- does what a request asks for -/
def request (s : Surroundings) (disk : Disk) : Request → Progress
  | .compute o => compute s o disk
  | .projects config files => projects s config files disk
  | .check config => check s config disk

end Run

end ChangeImpact
