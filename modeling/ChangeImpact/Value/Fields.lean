/-
The fields of an object in their order.

Fields are listed in the order in which their keys were first written, except that keys which are
the decimal text of an index (0, 1, … up to 4294967294, without leading zeros) come first,
ascending. Writing a key again replaces its value and leaves it in its place (`Fields.put`).
-/
import ChangeImpact.Number.Decimal

namespace ChangeImpact

/-- fields by key, each key once -/
abbrev Fields (α : Type) := List (String × α)

namespace Fields

variable {α : Type}

/-- the index that a key is the text of -/
def index? (key : String) : Option Nat :=
  let cs := key.toList
  let n := ofDigits cs
  if cs.length ≤ 10 ∧ cs.all Char.isDigit ∧ cs = Nat.toDigits 10 n ∧ n ≤ 4294967294 then some n else none

/-- writes a value under a key, in the place the key already has or else at the end -/
def put (fields : Fields α) (key : String) (value : α) : Fields α :=
  match fields with
  | [] => [(key, value)]
  | (k, v) :: rest => if k = key then (key, value) :: rest else (k, v) :: put rest key value

/-- puts a field with an index key among the fields with index keys -/
def insertIndexed (i : Nat) (field : String × α) : List (Nat × (String × α)) → List (Nat × (String × α))
  | [] => [(i, field)]
  | (j, other) :: rest => if i ≤ j then (i, field) :: (j, other) :: rest else (j, other) :: insertIndexed i field rest

/-- the fields with index keys, ascending, before the others -/
def arrange (fields : Fields α) : Fields α :=
  let indexed := fields.foldr (fun f rest => (index? f.1).elim rest fun i => insertIndexed i f rest) []
  indexed.map (·.2) ++ fields.filter fun f => (index? f.1).isNone

/-- the fields that a list of entries writes one after the other -/
def ofEntries (entries : List (String × α)) : Fields α :=
  arrange (entries.foldl (fun fields e => put fields e.1 e.2) [])

def get? (fields : Fields α) (key : String) : Option α :=
  fields.lookup key

def keys (fields : Fields α) : List String :=
  fields.map (·.1)

theorem lookup_put (fields : Fields α) (key other : String) (value : α) :
    (put fields key value).lookup other = if other = key then some value else fields.lookup other := by
  induction fields with
  | nil =>
    by_cases h : other = key
    · simp [put, h]
    · simp [put, List.lookup_cons, beq_false_of_ne h, h]
  | cons f rest ih =>
    obtain ⟨k, v⟩ := f
    rw [put]
    split
    · next hk =>
      subst hk
      by_cases h : other = k <;> simp [List.lookup_cons, h, beq_false_of_ne]
    · next hk =>
      by_cases h : other = k
      · subst h
        simp [hk]
      · simp [List.lookup_cons, beq_false_of_ne h, ih]

end Fields

end ChangeImpact
