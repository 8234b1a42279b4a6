/-
What a run prints, how it exits and what it leaves behind.

When a request fails the failure is reported where the warnings went, behind everything that was printed
before, and the run exits with 1; otherwise it exits with 0. Help that was asked for is output; a command
line that cannot be understood is reported like a failure. `sequence` lets several runs follow each other on
one disk.
-/
import ChangeImpact.Run.Command

namespace ChangeImpact

structure Outcome where
  /-- what was printed on both streams, in its order -/
  pieces : List Piece
  exit : Nat
  disk : Disk
  call : Option Git.Call
  /-- what the reader of the tables warned of -/
  warned : List String

def Outcome.stdout (o : Outcome) : String :=
  textOn .output o.pieces

def Outcome.stderr (o : Outcome) : String :=
  textOn .errors o.pieces

/-- the failure with the stack that it has -/
def Failure.traced (stack : Option String) : Failure → Failure
  | .error kind name message _ cause => .error kind name message stack cause
  | f => f

namespace Surroundings

/-- how much of a failure is reported -/
def detail (debug : Bool) : Detail :=
  if debug then .debug else .short

/-- the report of a failure, ended by a line feed -/
def report (s : Surroundings) (debug : Bool) (f : Failure) : String :=
  (f.traced (s.stack f)).render (detail debug) (colourEnabled s.terminal none) ++ "\n"

end Surroundings

/-- how a run ends whose command came so far -/
def Progress.outcome (p : Progress) (s : Surroundings) (debug : Bool) : Outcome :=
  match p.failure with
  | none => ⟨p.course.pieces, 0, p.course.disk, p.course.call, p.course.warned⟩
  | some f => ⟨p.course.pieces ++ [⟨.errors, s.report debug f⟩], 1, p.course.disk, p.course.call, p.course.warned⟩

namespace Run

/-- how the run of a command line ends -/
def run (s : Surroundings) (disk : Disk) (words : List String) : Outcome :=
  match parse words with
  | .error m => ⟨[⟨.errors, m.message⟩], 1, disk, none, []⟩
  | .ok (.help c) => ⟨[⟨.output, c.help⟩], 0, disk, none, []⟩
  | .ok (.request debug r) => (request s disk r).outcome s debug

/-- how each of several runs ends, every one on the disk that the one before left -/
def sequence (disk : Disk) : List (Surroundings × List String) → List Outcome
  | [] => []
  | (s, words) :: rest =>
    let o := run s disk words
    o :: sequence o.disk rest

end Run

end ChangeImpact
