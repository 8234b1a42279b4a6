/-
What a misspelt word may have been meant for.

Two words are so many edits apart: an edit drops, adds or replaces one code unit, or swaps two
neighbours, and no unit is edited twice. A candidate is similar to a word when at most three edits
lie between them and they leave more than two fifths of the longer one alone. The suggestions are
those of the similar candidates that are nearest to the word.
-/
import ChangeImpact.Text.Units

namespace ChangeImpact.Suggestion

/-- at most so many edits lie between two words -/
def within : Nat → List Nat → List Nat → Bool
  | k, [], bs => bs.length ≤ k
  | k, as, [] => as.length ≤ k
  | k, a :: as, b :: bs =>
    (a = b && within k as bs) ||
      match k with
      | 0 => false
      | k + 1 =>
        within k as (b :: bs) || within k (a :: as) bs || within k as bs ||
          match as, bs with
          | c :: cs, d :: ds => a = d && b = c && within k cs ds
          | _, _ => false
termination_by _ as bs => as.length + bs.length

/-- the most edits that a suggestion is away -/
def farthest : Nat := 3

/-- how many edits lie between two words, if they are not too many -/
def distance? (a b : List Nat) : Option Nat :=
  (List.range (farthest + 1)).find? fun k => within k a b

/-- how many edits a candidate is away from a word, if it is similar to it; a single character is
similar to nothing -/
def similar? (word candidate : List Nat) : Option Nat :=
  let length := max word.length candidate.length
  (distance? word candidate).filter fun d => 1 < candidate.length && 2 * length < 5 * (length - d)

/-- the nearest of the similar candidates -/
def nearest (word : List Nat) (candidates : List String) : List String :=
  let distances := candidates.filterMap fun c => (similar? word (Text.units c)).map fun d => (c, d)
  match (distances.map Prod.snd).min? with
  | none => []
  | some least => (distances.filter fun e => e.2 = least).map Prod.fst

def dashes : String := "--"

def withoutDashes (s : String) : String :=
  String.ofList (s.toList.drop dashes.length)

/-- the line about what a word may have been meant for, if there is anything to say. A word that begins
with two dashes is compared without them, and every candidate without its first two characters -/
def line? (word : String) (candidates : List String) : Option String :=
  let candidates := candidates.eraseDups
  let names :=
    if dashes.toList.isPrefixOf word.toList then
      ((nearest (Text.units (withoutDashes word)) (candidates.map withoutDashes)).mergeSort Text.atMost).map (dashes ++ ·)
    else (nearest (Text.units word) candidates).mergeSort Text.atMost
  match names with
  | [] => none
  | [name] => some ("(Did you mean " ++ name ++ "?)")
  | names => some ("(Did you mean one of " ++ ", ".intercalate names ++ "?)")

end ChangeImpact.Suggestion
