/-
Events and the log that they are told to.

A log is a text with one line for each event, a JSON object. It begins with the time and the type;
the entries of the log's context follow, and an entry of the same name takes the place of either.
The payload comes last, and takes the place of an entry called `payload`. An event at a time that
does not exist is refused and leaves the log as it was.
-/
import ChangeImpact.Failure
import ChangeImpact.Instant
import ChangeImpact.Json.Writer

namespace ChangeImpact

/-- something that a log is told: what it is, and what belongs to it -/
structure Event where
  type : String
  payload : Option (List (String × Value))

namespace Event

/-- the fields that are written for an event, in the order in which they are written -/
def fields (context : List (String × Value)) (time : Instant) (e : Event) : List (String × Value) :=
  [("ts", .string time.text), ("type", .string e.type)] ++ context ++
    e.payload.toList.map fun p => ("payload", .object p)

def record (context : List (String × Value)) (time : Instant) (e : Event) : Value :=
  .ofEntries (e.fields context time)

/-- the line of an event, ended by a line feed -/
def line (context : List (String × Value)) (time : Instant) (e : Event) : String :=
  String.ofList (Json.write (e.record context time) ++ ['\n'])

/-- the line of an event at a time that is given as a number of milliseconds -/
def lineAt? (context : List (String × Value)) (now : Number) (e : Event) : Option String :=
  (Instant.ofNumber? now).map fun time => e.line context time

end Event

/-- one thing that happens to a log; without a listener nobody writes the event down -/
structure Notice where
  now : Number
  event : Event
  listening : Bool

/-- what a notice adds to the log, nothing when its time does not exist -/
def Notice.added? (context : List (String × Value)) (n : Notice) : Option String :=
  if n.listening then n.event.lineAt? context n.now else some ""

namespace Notice

/-- what a notice at a time that does not exist fails with -/
def refusal : Failure :=
  .error .other "RangeError" "Invalid time value" none none

/-- what comes of a notice: the text that it adds, or its failure -/
def answer (context : List (String × Value)) (n : Notice) : Except Failure String :=
  match n.added? context with
  | some added => .ok added
  | none => .error refusal

end Notice

/-- the text of a log after some notices, and what each of them added -/
def writeNotices (context : List (String × Value)) (text : String) (notices : List Notice) :
    String × List (Option String) :=
  let added := notices.map (Notice.added? context)
  (added.foldl (fun t a => t ++ a.getD "") text, added)

end ChangeImpact
