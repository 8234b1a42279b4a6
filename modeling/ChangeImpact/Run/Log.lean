/-
The log file of a run.

A log is opened by making the folders above it, and told of events one after another; each is
written at the end of the file. `Log.tell` stops at the first event that cannot be written, and what
it wrote before that stays.
-/
import ChangeImpact.Disk.Basic
import ChangeImpact.Event
import ChangeImpact.Failure

namespace ChangeImpact

/-- a trouble with the disk as a failure of its own -/
def DiskError.failure (e : DiskError) : Failure :=
  .error .other ErrorKind.other.name e.message none none

structure Log where
  path : String
  context : List (String × Value)

namespace Log

/-- makes the folders above a log's file -/
def prepare (log : Log) (disk : Disk) (directory : Location) : Except DiskError Disk :=
  disk.makeFolders directory (Path.parent log.path)

/-- writes one event -/
def write (log : Log) (directory : Location) (time : Instant) (e : Event) (disk : Disk) : Except DiskError Disk :=
  disk.append directory log.path (e.line log.context time)

/-- writes events, of which the first is number `n` of the run, and says what came in the way -/
def tell (log : Log) (directory : Location) (clock : Nat → Instant) : Nat → List Event → Disk → Disk × Option DiskError
  | _, [], disk => (disk, none)
  | n, e :: es, disk =>
    match log.write directory (clock n) e disk with
    | .ok disk => log.tell directory clock (n + 1) es disk
    | .error trouble => (disk, some trouble)

/-- opens the log at a path; without a path, or with a blank one, there is none -/
def opened (path : Option String) (context : List (String × Value)) (directory : Location) (disk : Disk) :
    Except DiskError (Option Log × Disk) :=
  match path.bind Text.present? with
  | none => .ok (none, disk)
  | some path =>
    let log : Log := ⟨path, context⟩
    (log.prepare disk directory).map fun disk => (some log, disk)

/-- tells the log of events, if there is one -/
def tellIfAny (log : Option Log) (directory : Location) (clock : Nat → Instant) (n : Nat) (es : List Event) (disk : Disk) :
    Disk × Option DiskError :=
  match log with
  | none => (disk, none)
  | some log => log.tell directory clock n es disk

end Log

end ChangeImpact
