/-
What a run finds around it, and the tables and files that it gets from there.

`Surroundings` holds everything that decides a run besides its command line and the disk: where it
works, on which system, what arrives on its input, whether its errors go to a terminal, how tables are
read, how git replies and what it does to the disk meanwhile, which stack an error has, and the time at
which each event is written. How a text of tables is read and what git writes may be anything; a run
takes `readTables` for the one and a git that writes nothing for the other when it is told nothing else.
-/
import ChangeImpact.Git
import ChangeImpact.Instant
import ChangeImpact.Tables.Loading
import ChangeImpact.Text.Utf8
import ChangeImpact.Yaml.Document

namespace ChangeImpact

/-- what comes of reading a text of tables: a value, or why there is none, and what is warned of in either case -/
structure Readout where
  value : Except String Value
  warnings : List String

/-- the value that a text of tables stands for -/
def Surroundings.readTables (text : String) : Except String Value :=
  (Yaml.read text).mapError Yaml.Fault.message

/-- the first line of an error's stack: its name and its message -/
def Failure.heading? : Failure → Option String
  | .error _ name message _ _ => some (name ++ ": " ++ message)
  | _ => none

structure Surroundings where
  /-- the working directory -/
  directory : Location
  /-- the directory of the program, from which the tables that come with it are looked for upwards -/
  root : String
  systemName : String
  /-- the path of the tables, as the environment has it -/
  configPath : Option String
  input : List Text.Chunk
  /-- errors go to a terminal -/
  terminal : Bool
  git : Git.Program
  /-- what git leaves of a disk when it is asked; most ranges make it only read, but an argument that is an option of git's
  may make it write -/
  gitLeaves : Git.Call → Disk → Disk := fun _ disk => disk
  /-- the time of each event of the run, the first one being number 0 -/
  clock : Nat → Instant
  reader : String → Readout := fun text => ⟨Surroundings.readTables text, []⟩
  /-- the stack that an error has when it is reported -/
  stack : Failure → Option String := Failure.heading?

/-- tables that a run works with, and where they were found -/
structure Loaded where
  model : Model
  path : String
  source : Source

namespace Surroundings

/-- the path of the working directory -/
def directoryPath (s : Surroundings) : String :=
  Path.ofPlace s.directory

/-- the file with the tables that are meant, when a path for them may be given -/
def tablesFile (s : Surroundings) (disk : Disk) (explicit : Option String) : Option (String × Source) :=
  findTables disk s.directoryPath s.root explicit s.configPath

/-- the tables that are meant -/
def tables (s : Surroundings) (disk : Disk) (explicit : Option String) : Except TablesError Loaded :=
  match s.tablesFile disk explicit with
  | none => .error (.missing s.root)
  | some (path, source) =>
    match load (fun text => (s.reader text).value) disk s.directoryPath path with
    | .ok m => .ok ⟨m, path, source⟩
    | .error e => .error (.unloaded e)

/-- what is warned of when the tables that are meant are read -/
def tablesWarnings (s : Surroundings) (disk : Disk) (explicit : Option String) : List String :=
  match s.tablesFile disk explicit with
  | none => []
  | some (path, _) =>
    match disk.read [] (Path.absolute s.directoryPath path) with
    | .ok text => (s.reader text).warnings
    | .error _ => []

/-- the lines that arrive on the input -/
def inputLines (s : Surroundings) : List String :=
  Text.splitLines (Text.receive s.input)

/-- the changed files, and the call that was made to learn them: those of a range, or else the lines of
the input -/
def changedFiles (s : Surroundings) (disk : Disk) (range repository : Option String) :
    Option Git.Call × Except Failure (List String) :=
  match range.filter (· ≠ "") with
  | none => (none, .ok s.inputLines)
  | some range =>
    let directory := Path.absolute s.directoryPath (repository.getD s.directoryPath)
    let (call, files) := Git.changedFiles s.git disk directory range
    (call, files.mapError (Git.Problem.failure directory range))

/-- the disk after a call to git, or without one -/
def afterCall (s : Surroundings) (call : Option Git.Call) (disk : Disk) : Disk :=
  match call with
  | none => disk
  | some call => s.gitLeaves call disk

end Surroundings

end ChangeImpact
