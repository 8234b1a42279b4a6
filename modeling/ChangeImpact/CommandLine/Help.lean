/-
The help page of a command.

A page says how the command is used and what for, and lists what it can be given: operands, switches
and commands. The terms of all lists of a page are equally wide.
-/
import ChangeImpact.CommandLine.Command
import ChangeImpact.CommandLine.Layout

namespace ChangeImpact

/-- one list of a help page: its title, and a term with a description for each entry -/
structure HelpList where
  title : String
  entries : List (String × String)

namespace Command

/-- the command with all that leads to it -/
def fullName (c : Command) : String :=
  " ".intercalate ((c.above.reverse ++ [c]).map name)

/-- what can follow the name of a command, as its own page says it -/
def usage (c : Command) : String :=
  " ".intercalate <|
    [c.fullName, "[options]"] ++ (if c.below.isEmpty then [] else ["[command]"]) ++ c.operands?.toList.map Operands.shown

/-- what can follow the name of a command, as the page above it says it -/
def summary (c : Command) : String :=
  " ".intercalate ([c.name] ++ (if c.switches.isEmpty then [] else ["[options]"]) ++ c.operands?.toList.map Operands.shown)

/-- the lists of a command's help page -/
def helpLists (c : Command) : List HelpList :=
  [⟨"Arguments:", c.operands?.toList.map fun o => (o.name, o.description)⟩,
   ⟨"Options:", c.switches.map (fun s => (s.shown, s.description)) ++
      [(", ".intercalate helpWords, "display help for command")]⟩,
   ⟨"Commands:", if c.below.isEmpty then [] else
      c.below.map (fun d => (d.summary, d.description)) ++ [(helpCommand ++ " [command]", "display help for command")]⟩]

/-- the help page of a command -/
def help (c : Command) : String :=
  let lists := c.helpLists.filter fun l => !l.entries.isEmpty
  let termWidth := (lists.flatMap fun l => l.entries.map fun e => e.1.length).foldl max 0
  let page := ["Usage: " ++ c.usage, "", c.description] ++ lists.flatMap fun l =>
    ["", l.title] ++ l.entries.flatMap fun e => Layout.entry termWidth e.1 e.2
  String.join (page.map (· ++ "\n"))

end Command

end ChangeImpact
