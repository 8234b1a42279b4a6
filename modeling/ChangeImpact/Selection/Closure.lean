/-
All that can be reached along a table of dependencies.

The closure is built in rounds. A round's frontier is the set of names that the round before it has
reached for the first time, so a name is in at most one frontier, and the rounds end when a frontier
is empty. The members that the table mentions, counted with repetitions, bound the number of rounds.
-/
import ChangeImpact.Names.Table

namespace ChangeImpact

/-- how often the table mentions a member -/
def NameTable.mentions (t : NameTable) : Nat :=
  (t.entries.flatMap fun e => e.2.names).length

/-- the names that a frontier leads to and that are new -/
def nextFrontier (dependencies : NameTable) (closed frontier : NameSet) : NameSet :=
  (frontier.gather dependencies.members).without closed

/-- the frontiers of at most so many rounds; `closed` is all that was reached so far, with the frontier
itself -/
def frontiers (dependencies : NameTable) : Nat → NameSet → NameSet → List NameSet
  | 0, _, _ => []
  | rounds + 1, closed, frontier =>
    if frontier = ∅ then []
    else
      let next := nextFrontier dependencies closed frontier
      frontier :: frontiers dependencies rounds (closed ∪ next) next

/-- the frontiers of all rounds, from the roots on -/
def allFrontiers (dependencies : NameTable) (roots : NameSet) : List NameSet :=
  frontiers dependencies (dependencies.mentions + 2) roots roots

/-- the names that are reached from the roots in any number of steps -/
def closure (dependencies : NameTable) (roots : NameSet) : NameSet :=
  .ofList ((allFrontiers dependencies roots).flatMap NameSet.names)

end ChangeImpact
