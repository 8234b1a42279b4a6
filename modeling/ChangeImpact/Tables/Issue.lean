/-
Reports about a value that does not have the expected shape.

An `Issue` says what is wrong and where: the place is the path of keys and indices that leads to it
from the root.
-/
import ChangeImpact.Value.Basic

namespace ChangeImpact

/-- one step down into a value -/
inductive Step where
  | key (k : String)
  | index (i : Nat)
  deriving DecidableEq

def Step.text : Step → String
  | .key k => k
  | .index i => toString i

inductive Problem where
  | wrongType (expected received : String)
  | unknownKeys (keys : List String)
  | emptyText
  | emptyList
  | other (message : String)
  deriving DecidableEq

def Problem.text : Problem → String
  | .wrongType expected received => "Expected " ++ expected ++ ", received " ++ received
  | .unknownKeys keys => "Unrecognized keys: " ++ ", ".intercalate keys
  | .emptyText => "String must contain at least 1 character(s)"
  | .emptyList => "Array must contain at least 1 element(s)"
  | .other message => message

structure Issue where
  path : List Step
  problem : Problem
  deriving DecidableEq

namespace Issue

/-- the place of an issue, the root having a name of its own -/
def location (i : Issue) : String :=
  if i.path = [] then "<root>" else ".".intercalate (i.path.map Step.text)

def text (i : Issue) : String :=
  i.location ++ ": " ++ i.problem.text

end Issue

end ChangeImpact
