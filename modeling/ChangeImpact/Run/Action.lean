/-
What a command does, one thing after another.

A command is an `Action`. It prints texts on its two streams, changes the disk, and may ask git; what it
has done so far is its `Course`. When something fails the action ends there, and its course stays what it
was: a text that was printed is not taken back, and neither is what was written to the disk. `Progress` is
what has become of a whole command.
-/
import ChangeImpact.Failure
import ChangeImpact.Git

namespace ChangeImpact

/-- where a program prints -/
inductive Stream where
  | output
  | errors
  deriving DecidableEq

/-- a text that was printed, and where -/
structure Piece where
  stream : Stream
  text : String
  deriving DecidableEq

/-- what a command has done so far -/
structure Course where
  /-- what was printed, in its order -/
  pieces : List Piece
  /-- what the reader of the tables warned of; it tells the runtime, and prints on neither stream -/
  warned : List String
  disk : Disk
  call : Option Git.Call

/-- what has become of a command, and the failure that ended it, if one did -/
structure Progress where
  course : Course
  failure : Option Failure

abbrev Action := EStateM Failure Course

namespace Action

def print (stream : Stream) (text : String) : Action Unit :=
  modify fun c => { c with pieces := c.pieces ++ [⟨stream, text⟩] }

/-- prints lines, each ended by a line feed -/
def printLines (stream : Stream) : List String → Action Unit
  | [] => pure ()
  | line :: rest => do
    print stream (line ++ "\n")
    printLines stream rest

/-- goes on with a result, or fails with the failure -/
def attempt {α : Type} : Except Failure α → Action α
  | .ok a => pure a
  | .error f => throw f

/-- what becomes of an action on a disk when nothing was done before -/
def progress (a : Action Unit) (disk : Disk) : Progress :=
  match a ⟨[], [], disk, none⟩ with
  | .ok _ c => ⟨c, none⟩
  | .error f c => ⟨c, some f⟩

/-! ## Running actions -/

variable {α β : Type} {x : Action α} {f : α → Action β} {c c' : Course}

theorem bind_of_ok {a : α} (h : x c = .ok a c') : (x >>= f) c = f a c' := by
  have hbind : (x >>= f) c = EStateM.bind x f c := rfl
  rw [hbind, EStateM.bind, h]

theorem bind_of_error {e : Failure} (h : x c = .error e c') : (x >>= f) c = .error e c' := by
  have hbind : (x >>= f) c = EStateM.bind x f c := rfl
  rw [hbind, EStateM.bind, h]

theorem get_run (c : Course) : (get : Action Course) c = .ok c c := rfl

/-- lines on a stream, each ended by a line feed -/
def linesOn (stream : Stream) (lines : List String) : List Piece :=
  lines.map fun line => ⟨stream, line ++ "\n"⟩

/-- lines are printed one after another behind what was printed before -/
theorem printLines_run (stream : Stream) (lines : List String) (pieces : List Piece) (warned : List String) (disk : Disk)
    (call : Option Git.Call) :
    printLines stream lines ⟨pieces, warned, disk, call⟩ =
      .ok () ⟨pieces ++ linesOn stream lines, warned, disk, call⟩ := by
  induction lines generalizing pieces with
  | nil =>
    rw [linesOn, List.map_nil, List.append_nil]
    rfl
  | cons line rest ih =>
    have hfirst : print stream (line ++ "\n") ⟨pieces, warned, disk, call⟩ =
        .ok () ⟨pieces ++ [⟨stream, line ++ "\n"⟩], warned, disk, call⟩ := rfl
    rw [printLines, bind_of_ok hfirst, ih, List.append_assoc]
    rfl

end Action

/-! ## What was printed on a stream -/

/-- the texts that were printed on a stream, one behind the other -/
def textOn (stream : Stream) (pieces : List Piece) : String :=
  String.join ((pieces.filter fun p => p.stream = stream).map Piece.text)

/-- lines as they are printed, each ended by a line feed -/
def printed (lines : List String) : String :=
  String.join (lines.map (· ++ "\n"))

theorem textOn_append (stream : Stream) (before after : List Piece) :
    textOn stream (before ++ after) = textOn stream before ++ textOn stream after := by
  simp only [textOn, List.filter_append, List.map_append, String.join_append]

theorem textOn_linesOn (stream : Stream) (lines : List String) :
    textOn stream (Action.linesOn stream lines) = printed lines := by
  have hall : (Action.linesOn stream lines).filter (fun p => p.stream = stream) = Action.linesOn stream lines := by
    rw [List.filter_eq_self]
    simp [Action.linesOn]
  rw [textOn, hall, Action.linesOn, List.map_map]
  rfl

theorem textOn_linesOn_of_ne {stream other : Stream} (h : stream ≠ other) (lines : List String) :
    textOn other (Action.linesOn stream lines) = "" := by
  have hnone : (Action.linesOn stream lines).filter (fun p => p.stream = other) = [] := by
    rw [List.filter_eq_nil_iff]
    simp [Action.linesOn, h]
  rw [textOn, hnone]
  rfl

/-! ### Warnings, and then a result -/

theorem output_of_errors (warnings : List String) : textOn .output (Action.linesOn .errors warnings) = "" :=
  textOn_linesOn_of_ne (by decide) warnings

theorem output_of_warned (warnings lines : List String) :
    textOn .output (Action.linesOn .errors warnings ++ Action.linesOn .output lines) = printed lines := by
  rw [textOn_append, output_of_errors, textOn_linesOn, String.empty_append]

theorem errors_of_warned (warnings lines : List String) :
    textOn .errors (Action.linesOn .errors warnings ++ Action.linesOn .output lines) = printed warnings := by
  have hnone : textOn .errors (Action.linesOn .output lines) = "" := textOn_linesOn_of_ne (by decide) lines
  rw [textOn_append, textOn_linesOn, hnone, String.append_empty]

end ChangeImpact
