/-
Failures and how they are reported.

A `Failure` is what ends a run: an error of one of four kinds, a bare value, or nothing at all. Its
`Report` is what a user is told, texts that are blank counting as missing. `Failure.lines` arranges
the report: the title always, the message when it says more than the title, a hint and a next step
when there are any. In detail the code follows, and then, as far as there are any, the error's name,
its cause and its stack. A value without a text cannot be reported, and an error with such a cause
not in detail: `Failure.told` and `Failure.shown` are the report, or the failure to make one.
-/
import ChangeImpact.Value.Basic
import ChangeImpact.Text.Blank

namespace ChangeImpact

/-- what an error knows beyond its message -/
inductive ErrorKind where
  /-- an error that is already worded for the user -/
  | reported (code title : String) (hint next : Option String)
  /-- tables that were refused, with one line for each thing that is wrong -/
  | tables (details : List String)
  | git
  | other
  deriving DecidableEq

inductive Failure where
  | nothing
  | value (v : Value)
  | error (kind : ErrorKind) (name message : String) (stack : Option String) (cause : Option Failure)

/-- the name of an error that was given none -/
def ErrorKind.name : ErrorKind → String
  | .reported .. => "UserFacingError"
  | .tables _ => "ConfigError"
  | .git => "GitError"
  | .other => "Error"

/-- what a user is told -/
structure Report where
  code : String
  title : String
  message : String
  hint : Option String
  next : Option String
  cause : Option Failure

inductive LineKind where
  | title
  | message
  | hint
  | next
  | code
  | name
  | cause
  | stack
  deriving DecidableEq

structure ReportLine where
  kind : LineKind
  text : String
  deriving DecidableEq

inductive Detail where
  | short
  | debug
  deriving DecidableEq

/-! ## Colours -/

inductive Style where
  | bold
  | dim
  | red
  | yellow
  | cyan
  deriving DecidableEq

/-- the number by which a terminal knows a style -/
def Style.number : Style → Nat
  | .bold => 1
  | .dim => 2
  | .red => 31
  | .yellow => 33
  | .cyan => 36

/-- the sequence that a terminal takes for a style, or for the end of all styles when the number is 0 -/
def escapeSequence (number : Nat) : String :=
  "\x1b[" ++ toString number ++ "m"

/-- a text in some styles, which end with it; a text without styles stays as it is -/
def styled (coloured : Bool) (styles : List Style) (text : String) : String :=
  if !coloured || styles.isEmpty then text
  else String.join (styles.map fun s => escapeSequence s.number) ++ text ++ escapeSequence 0

/-- colours are for terminals, and only when they are not declined -/
def colourEnabled (terminal : Bool) (wanted : Option Bool) : Bool :=
  terminal && wanted.getD true

namespace LineKind

/-- the word for a kind of line -/
def word : LineKind → String
  | title => "title"
  | message => "message"
  | hint => "hint"
  | next => "next"
  | code => "code"
  | name => "name"
  | cause => "cause"
  | stack => "stack"

/-- the label in front of a line -/
def label? : LineKind → Option String
  | hint => some "Hint"
  | next => some "Next"
  | code => some "Code"
  | name => some "Name"
  | cause => some "Cause"
  | _ => none

def styles : LineKind → List Style
  | title => [.bold, .red]
  | message => []
  | hint => [.yellow]
  | next => [.cyan]
  | _ => [.dim]

end LineKind

/-! ## Texts -/

namespace Failure

open ChangeImpact.Text

/-- the text of a value that says what went wrong -/
def valueMessage : Value → String
  | .object fields =>
    match fields.lookup "message" with
    | some (.string s) => (present? s).getD (Value.object fields).display
    | _ => (Value.object fields).display
  | v => v.display

/-- one text that says what went wrong -/
def message : Failure → String
  | nothing => "undefined"
  | value v => valueMessage v
  | error _ name message _ _ => ((present? message).orElse fun _ => present? name).getD "Error"

def unknownTitle : String := "Unexpected error"

def unknownMessage : String := "An unexpected error occurred."

def unknownCode : String := "UNKNOWN"

/-- what a user is told about a failure -/
def report : Failure → Report
  | nothing => ⟨unknownCode, unknownTitle, unknownMessage, none, none, none⟩
  | value .null => ⟨unknownCode, unknownTitle, unknownMessage, none, none, none⟩
  | value v => ⟨unknownCode, unknownTitle, (present? (valueMessage v)).getD unknownMessage, none, none, none⟩
  | error (.reported code title hint next) _ message _ cause =>
    ⟨code, (present? title).getD unknownTitle, (present? message).getD unknownMessage, hint.bind present?,
      next.bind present?, cause⟩
  | error (.tables details) _ message _ cause =>
    ⟨"CONFIG_ERROR", "Selection config invalid.",
      "\n".intercalate ((present? message).getD unknownMessage :: details.map ("  - " ++ ·)), none, none, cause⟩
  | error .git _ message _ cause =>
    ⟨"GIT_ERROR", "Git command failed.", (present? message).getD unknownMessage, none, none, cause⟩
  | error .other name message stack cause =>
    ⟨unknownCode, unknownTitle, (present? (Failure.message (error .other name message stack cause))).getD unknownMessage,
      none, none, cause⟩

/-- the text of a cause that says more than the message -/
def causeText? (cause : Option Failure) (reported : String) : Option String :=
  match cause with
  | none => none
  | some nothing => none
  | some (value .null) => none
  | some f => (present? f.message).filter (· ≠ reported)

/-- the lines that everyone sees -/
def shortLines (r : Report) : List ReportLine :=
  [⟨.title, r.title⟩] ++ (if trim r.message = trim r.title then [] else [⟨.message, r.message⟩]) ++
    r.hint.toList.map (⟨.hint, ·⟩) ++ r.next.toList.map (⟨.next, ·⟩)

/-- the name of an error, when it is not blank -/
def name? : Failure → Option String
  | error _ name _ _ _ => present? name
  | _ => none

/-- the stack of an error, when there is one -/
def stack? : Failure → Option String
  | error _ _ _ stack _ => stack.filter (· ≠ "")
  | _ => none

/-- the lines for someone who looks into the failure -/
def debugLines (f : Failure) (r : Report) : List ReportLine :=
  [⟨.code, r.code⟩] ++ f.name?.toList.map (⟨.name, ·⟩) ++ (causeText? r.cause r.message).toList.map (⟨.cause, ·⟩) ++
    f.stack?.toList.map (⟨.stack, ·⟩)

def lines (f : Failure) (detail : Detail) : List ReportLine :=
  shortLines f.report ++ if detail = .debug then f.debugLines f.report else []

/-- a line with its label and in its colours -/
def renderLine (coloured : Bool) (l : ReportLine) : String :=
  styled coloured l.kind.styles ((l.kind.label?.map (· ++ ": ")).getD "" ++ l.text)

def render (f : Failure) (detail : Detail) (coloured : Bool) : String :=
  "\n".intercalate ((f.lines detail).map (renderLine coloured))

/-! ## Values without a text -/

/-- whether a value has a text that says what went wrong -/
def valueTells : Value → Bool
  | .object fields =>
    match fields.lookup "message" with
    | some (.string s) => (present? s).isSome || (Value.object fields).hasText
    | _ => (Value.object fields).hasText
  | v => v.hasText

/-- whether there is a text that says what went wrong -/
def tells : Failure → Bool
  | value v => valueTells v
  | nothing | error .. => true

/-- what comes of asking for the text of a value that has none -/
def wordless : Failure :=
  .error .other "TypeError" "Cannot convert object to primitive value" none none

/-- whether a failure can be reported; the text of its cause is only asked for in detail -/
def tellable (f : Failure) (detail : Detail) : Bool :=
  f.tells && (detail = .short || f.report.cause.all tells)

/-- the text that says what went wrong, or the failure to have one -/
def worded (f : Failure) : Except Failure String :=
  if f.tells then .ok f.message else .error wordless

/-- the lines of a failure, or the failure to make them -/
def told (f : Failure) (detail : Detail) : Except Failure (List ReportLine) :=
  if f.tellable detail then .ok (f.lines detail) else .error wordless

/-- the lines of a failure as one text -/
def shown (f : Failure) (detail : Detail) (coloured : Bool) : Except Failure String :=
  (f.told detail).map fun ls => "\n".intercalate (ls.map (renderLine coloured))

end Failure

end ChangeImpact
