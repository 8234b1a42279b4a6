/-
Asking git which files a range of revisions touches.

`Git.Program` is git as it is installed: what it replies to a call, if it is there at all.
`Git.changedFiles` makes one call in a directory and reads the names off the reply, one to a line,
without the blank characters around them. `Problem` is why there are no names; all of them are
reported alike, with the problem's own text as the cause.
-/
import ChangeImpact.Disk.Basic
import ChangeImpact.Failure
import ChangeImpact.Text.Visible

namespace ChangeImpact.Git

open ChangeImpact.Text

/-- what git is asked, and in which directory -/
structure Call where
  directory : String
  arguments : List String
  deriving DecidableEq

structure Reply where
  exit : Nat
  stdout : String
  stderr : String
  deriving DecidableEq

abbrev Program := Call → Option Reply

inductive Problem where
  /-- an argument that no program can be given -/
  | nullCharacter (argument : String)
  /-- a directory that is none -/
  | noDirectory (error : DiskError)
  | notDirectory (path : String)
  | notInstalled
  | refused (r : Reply)

/-- the arguments that ask for the names of the changed files -/
def arguments (range : String) : List String :=
  ["diff", "--name-only", range]

/-! ## Problems and how they are told -/

/-- a call as a shell takes it -/
def commandText (arguments : List String) : List Char :=
  joinPieces ' ' (("git" :: arguments).map fun w => quoted (shown w.toList))

/-- the parts of a text that are not empty, each without a line end, with an empty line between each two -/
def paragraphs (parts : List (List Char)) : String :=
  String.ofList ("\n\n".toList.intercalate ((parts.map fun p => shownLines (withoutLineEnd p)).filter (· ≠ [])))

/-- the text of a problem that a call with these arguments has -/
def Problem.text (arguments : List String) : Problem → String
  | nullCharacter a => "Arguments cannot contain null bytes (\"\\0\"): " ++ a
  | noDirectory e =>
    let spawn := if e.trouble = .missing then "spawn git " else "spawn "
    paragraphs ["Command failed with ".toList ++ e.trouble.code.toList ++ ": ".toList ++ commandText arguments ++
      ("\nThe \"cwd\" option is invalid: " ++ e.path.getD "" ++ ".\n" ++ e.message ++ "\n" ++ spawn ++ e.trouble.code).toList]
  | notDirectory path =>
    paragraphs ["Command failed with ENOTDIR: ".toList ++ commandText arguments ++
      ("\nThe \"cwd\" option is not a directory: " ++ path ++ ".\nspawn ENOTDIR").toList]
  | notInstalled =>
    paragraphs ["Command failed with ENOENT: ".toList ++ commandText arguments ++ "\nspawn git ENOENT".toList]
  | refused r =>
    paragraphs ["Command failed with exit code ".toList ++ (toString r.exit).toList ++ ": ".toList ++ commandText arguments,
      withoutLineEnd r.stderr.toList, withoutLineEnd r.stdout.toList]

/-- a problem as a failure of its own -/
def Problem.cause (arguments : List String) (p : Problem) : Failure :=
  let message := "git " ++ " ".intercalate arguments ++ " failed: " ++ trim (p.text arguments)
  .error .git ErrorKind.git.name message none none

/-- a problem as a user is told of it -/
def Problem.failure (directory range : String) (p : Problem) : Failure :=
  let kind := ErrorKind.reported "GIT_ERROR" "Could not list changed files."
    (some "Check that the revision range exists, or pipe the changed files on stdin instead.") none
  .error kind kind.name ("git diff --name-only " ++ range ++ " failed in " ++ directory ++ ".") none
    (some (p.cause (arguments range)))

/-! ## Calls -/

/-- the names in what git printed -/
def namesIn (output : String) : List String :=
  (splitAt '\n' (String.ofList (withoutLineEnd output.toList))).filterMap present?

/-- what keeps a call from being made -/
def obstacle? (disk : Disk) (directory range : String) : Option Problem :=
  if range.toList.contains '\x00' then some (.nullCharacter range)
  else
    match disk.look [] directory with
    | .ok .folder => none
    | .ok _ => some (.notDirectory directory)
    | .error e => some (.noDirectory e)

/-- the files that a range touches, and the call that was made to learn them -/
def changedFiles (git : Program) (disk : Disk) (directory range : String) :
    Option Call × Except Problem (List String) :=
  match obstacle? disk directory range with
  | some p => (none, .error p)
  | none =>
    let call : Call := ⟨directory, arguments range⟩
    match git call with
    | none => (none, .error .notInstalled)
    | some r => (some call, if r.exit = 0 then .ok (namesIn r.stdout) else .error (.refused r))

end ChangeImpact.Git
