/-
The program.

What a run does is `Run.run`, a function of the command line, of the surroundings and of the disk.
This module gathers the surroundings and as much of the disk as the run looks at, prints what comes
out, and writes what the run has added to files. It starts no other program, so a run that asks git
finds none.
-/
import ChangeImpact.Run.Outcome
import ChangeImpact.Tables.Bundled
import Std.Time.DateTime.Timestamp

namespace ChangeImpact.Main

/-! ## The disk -/

/-- what stands at a place, if anything does -/
def standingAt (place : Location) : IO (Option Content) := do
  try
    let bytes ← IO.FS.readBinFile (Path.ofPlace place)
    return some (.file (String.ofList (Text.decodeUtf8 bytes.toList)))
  catch e =>
    match e with
    | .inappropriateType .. => return some .folder
    | _ => return none

/-- adds to a disk what stands at a place and above it -/
def gather (disk : Disk) (place : Location) : IO Disk := do
  let mut disk := disk
  for n in List.range place.length do
    let upper := place.take (n + 1)
    match ← standingAt upper with
    | none => return disk
    | some e =>
      disk := disk.put upper e
      if e ≠ .folder then return disk
  return disk

/-- the disk with the tables that come with the program -/
def withBundled (disk : Disk) (root : String) : Disk :=
  let place := Path.place root (bundledPath root)
  let folders := (List.range place.length).map place.take
  (folders.foldl (fun d p => d.put p .folder) disk).put place (.file Bundled.text)

/-- the places that a request looks at -/
def places (s : Surroundings) (r : Request) : List Location :=
  let tables (config : Option String) := [(tablesPath s.directoryPath s.root config s.configPath).1]
  let paths :=
    match r with
    | .compute o => tables o.config ++ (o.logFile.bind Text.present?).toList ++ o.repo.toList
    | .projects config _ => tables config
    | .check config => tables config
  s.directory :: paths.map (Path.place s.directoryPath)

/-- writes what one disk has and the one before it had not -/
def writeBack (before after : Disk) : IO Unit := do
  for (place, e) in after.entries do
    match e with
    | .folder => if before.standing? place = none then IO.FS.createDirAll (Path.ofPlace place)
    | .file text =>
      if before.text? place ≠ some text then
        let handle ← IO.FS.Handle.mk (Path.ofPlace place) .append
        handle.putStr (String.ofList (text.toList.drop ((before.text? place).getD "").length))
    | .link _ => pure ()

/-! ## The surroundings -/

/-- whether a request is answered from the input -/
def readsInput : Request → Bool
  | .compute o => (o.diff.filter (· ≠ "")).isNone
  | .projects _ files => files.isEmpty
  | .check _ => false

/-- all that arrives on the input -/
partial def receiveAll (input : IO.FS.Stream) (before : List Text.Chunk) : IO (List Text.Chunk) := do
  let bytes ← input.read 65536
  if bytes.isEmpty then return before.reverse
  else receiveAll input (.bytes bytes.toList :: before)

/-- what the system calls itself -/
def systemName : IO String := do
  match ← standingAt ["proc", "sys", "kernel", "ostype"] with
  | some (.file text) => return Text.trim text
  | _ => return (← IO.getEnv "OS").getD "Darwin"

def now : IO Instant := do
  let time := (← Std.Time.Timestamp.now).toMillisecondsSinceUnixEpoch.val
  return if h : time.natAbs ≤ farthest then ⟨time, h⟩ else ⟨0, by decide⟩

/-- what a run finds around it, its input apart -/
def surroundings : IO Surroundings := do
  let time ← now
  return {
    directory := Path.place "/" (← IO.currentDir).toString
    root := (← IO.appDir).toString
    systemName := ← systemName
    configPath := ← IO.getEnv "PREMERGE_SCOPE_CONFIG"
    input := []
    terminal := ← (← IO.getStderr).isTty
    git := fun _ => none
    clock := fun _ => time }

end ChangeImpact.Main

open ChangeImpact in
def main (words : List String) : IO UInt32 := do
  let s ← Main.surroundings
  let (input, looked) ←
    match parse words with
    | .ok (.request _ r) =>
      let input ← if Main.readsInput r then Main.receiveAll (← IO.getStdin) [] else pure []
      pure (input, Main.places s r)
    | _ => pure ([], [])
  let disk ← looked.foldlM Main.gather ⟨[]⟩
  let disk := Main.withBundled disk s.root
  let o := Run.run { s with input } disk words
  Main.writeBack disk o.disk
  for p in o.pieces do
    match p.stream with
    | .output => (← IO.getStdout).putStr p.text
    | .errors => (← IO.getStderr).putStr p.text
  return UInt32.ofNat o.exit
