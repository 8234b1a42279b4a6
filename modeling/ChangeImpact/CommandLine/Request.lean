/-
What the words of a command line ask for.

Every command reads the words that are left for it (`Command.read`): its own switches wherever they
stand, and operands up to the first word that looks like a switch of another command; from there on,
all that is not its own is left. Two dashes end the switches. The first operand of a command with
others below it names the one that goes on with what is left (`Command.invoke`). `parse` starts with
the program itself.
-/
import ChangeImpact.CommandLine.Help
import ChangeImpact.CommandLine.Suggestion

namespace ChangeImpact

/-! ## Requests -/

structure ComputeOptions where
  platform : Option String
  diff : Option String
  repo : Option String
  config : Option String
  logFile : Option String
  json : Bool
  strict : Bool
  deriving DecidableEq

inductive Request where
  | compute (options : ComputeOptions)
  | projects (config : Option String) (files : List String)
  | check (config : Option String)
  deriving DecidableEq

inductive Invocation where
  | help (c : Command)
  | request (debug : Bool) (r : Request)
  deriving DecidableEq

/-- what is wrong with a command line -/
inductive Misuse where
  | missingCommand (c : Command)
  | unknownCommand (c : Command) (word : String)
  | unknownSwitch (c : Command) (word : String)
  | missingValue (s : Switch)
  deriving DecidableEq

/-! ## Misuses and how they are told -/

/-- the switches that may have been meant below a command, from the nearest command to the program -/
def Command.switchWords (c : Command) : List String :=
  (c :: c.above).flatMap fun d => d.switches.map Switch.word ++ helpWords.drop 1

/-- the commands that may have been meant below a command -/
def Command.commandWords (c : Command) : List String :=
  c.below.map Command.name ++ [helpCommand]

def Misuse.message : Misuse → String
  | .missingCommand c => c.help
  | .unknownCommand c word =>
    let lines := ["error: unknown command '" ++ word ++ "'"] ++ (Suggestion.line? word c.commandWords).toList
    String.join (lines.map (· ++ "\n"))
  | .unknownSwitch c word =>
    let suggestion :=
      if Suggestion.dashes.toList.isPrefixOf word.toList then Suggestion.line? word c.switchWords else none
    let lines := ["error: unknown option '" ++ word ++ "'"] ++ suggestion.toList
    String.join (lines.map (· ++ "\n"))
  | .missingValue s => "error: option '" ++ s.shown ++ "' argument missing\n"

/-! ## Reading words -/

/-- switches as they were given, each with its value, which is empty for a switch that stands for itself -/
abbrev Given := List (Switch × String)

/-- the value of a switch: the one that was given last -/
def Given.value? (g : Given) (s : Switch) : Option String :=
  List.lookup s (List.reverse g)

def Given.has (g : Given) (s : Switch) : Bool :=
  (g.value? s).isSome

/-- what a command has read: its switches, operands, and the words that are left -/
structure Reading where
  given : Given
  operands : List String
  left : List String

/-- a word that may be a switch -/
def looksLikeSwitch (w : String) : Bool :=
  w.toList.head? = some '-' && 1 < w.length

/-- the rest of a text that begins so -/
def afterBeginning? (beginning s : String) : Option String :=
  if beginning.toList.isPrefixOf s.toList then some (String.ofList (s.toList.drop beginning.toList.length)) else none

namespace Command

/-- a switch with its value in the same word, after an equals sign -/
def attached? (c : Command) (w : String) : Option (Switch × String) :=
  c.switches.findSome? fun s => if s.takesValue then (afterBeginning? (s.word ++ "=") w).map (s, ·) else none

/-- reads words; once there was one that is not the command's own, the others like it are left as well -/
def read (c : Command) (leaving : Bool) : List String → Except Misuse Reading
  | [] => .ok ⟨[], [], []⟩
  | w :: ws =>
    if w = Suggestion.dashes then .ok (if leaving then ⟨[], [], w :: ws⟩ else ⟨[], ws, []⟩)
    else
      match c.switches.find? (·.word = w) with
      | some s =>
        if s.takesValue then
          match ws with
          | [] => .error (.missingValue s)
          | v :: rest => (c.read leaving rest).map fun r => { r with given := (s, v) :: r.given }
        else (c.read leaving ws).map fun r => { r with given := (s, "") :: r.given }
      | none =>
        match c.attached? w with
        | some e => (c.read leaving ws).map fun r => { r with given := e :: r.given }
        | none =>
          if leaving || looksLikeSwitch w then (c.read true ws).map fun r => { r with left := w :: r.left }
          else (c.read false ws).map fun r => { r with operands := w :: r.operands }

/-! ## From words to a request -/

/-- the request that a command stands for, unless it only has others below it -/
def request? (c : Command) (given : Given) (operands : List String) : Option Request :=
  match c with
  | compute => some (.compute {
      platform := operands.head?
      diff := given.value? .diff
      repo := given.value? .repo
      config := given.value? .config
      logFile := given.value? .logFile
      json := given.has .json
      strict := given.has .strictPlatform })
  | projects => some (.projects (given.value? .config) operands)
  | check => some (.check (given.value? .config))
  | program | config => none

/-- the answer to a request for help on a command below this one -/
def explain (c : Command) (word : Option String) : Except Misuse Invocation :=
  match word.filter (· ≠ "") with
  | none => .ok (.help c)
  | some w =>
    match c.below.find? (·.name = w) with
    | some d => .ok (.help d)
    | none => .error (.missingCommand c)

/-- what a command makes of operands and words that name no command below it -/
def conclude (c : Command) (given : Given) (operands left : List String) : Except Misuse Invocation :=
  if left.any (· ∈ helpWords) then .ok (.help c)
  else
    match c.request? given operands, operands, left with
    | some r, _, [] => .ok (.request (given.has .debug) r)
    | some _, _, w :: _ => .error (.unknownSwitch c w)
    | none, w :: _, _ => .error (.unknownCommand c w)
    | none, [], w :: _ => .error (.unknownSwitch c w)
    | none, [], [] => .error (.missingCommand c)

/-- what a command makes of the operands it was handed and of the words that are left, given how many
levels may be below it -/
def invoke : Nat → Command → Given → List String → List String → Except Misuse Invocation
  | levels, c, given, operands, words =>
    match c.read false words with
    | .error m => .error m
    | .ok r =>
      let given := given ++ r.given
      let operands := operands ++ r.operands
      match operands with
      | [] => c.conclude given [] r.left
      | first :: rest =>
        match c.below.find? (·.name = first), levels with
        | some d, levels + 1 => invoke levels d given rest r.left
        | some _, 0 => .error (.missingCommand c)
        | none, _ =>
          if !c.below.isEmpty && first = helpCommand then c.explain rest.head?
          else c.conclude given operands r.left

end Command

/-- what the words of a command line ask for -/
def parse (words : List String) : Except Misuse Invocation :=
  Command.invoke Command.program.height .program [] [] words

end ChangeImpact
