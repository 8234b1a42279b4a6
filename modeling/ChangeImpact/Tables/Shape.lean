/-
Shapes of values, and every way in which a value departs from its shape.

A `Shape` is a text that may not be empty, a list, a table with entries of one shape under keys of
any name, or a record with fixed fields. `Shape.issues` lists all departures: below a value of the
wrong type nothing is reported; a list that has to have an item reports that it has none before its
items; a table reports for each entry the key and then the value; a record reports its fields in the
order of the shape, whatever their order in the value, and after them the keys it has no field for.
-/
import ChangeImpact.Tables.Issue
import ChangeImpact.Text.Blank

namespace ChangeImpact

inductive Shape where
  | name
  | segment
  | list (nonempty : Bool) (item : Shape)
  | table (entry : Shape)
  | record (fields : List (String × Bool × Shape))

/-- the text of a name: blank characters around it do not count -/
def nameOf (s : String) : String :=
  Text.trim s

namespace Shape

/-- the type that a value of this shape has -/
def expected : Shape → Kind
  | .name => .string
  | .segment => .string
  | .list _ _ => .array
  | .table _ => .object
  | .record _ => .object

/-- the report about a value of another type -/
def mismatch (shape : Shape) (path : List Step) (received : Kind) : List Issue :=
  [⟨path, .wrongType shape.expected.name received.name⟩]

/-- the issues of a text that must not be empty -/
def textIssues (path : List Step) (s : String) : List Issue :=
  if s.isEmpty then [⟨path, .emptyText⟩] else []

/-- the issues of each item under its index -/
def itemIssues (check : List Step → Value → List Issue) (path : List Step) (start : Nat) : List Value → List Issue
  | [] => []
  | v :: rest => check (path ++ [.index start]) v ++ itemIssues check path (start + 1) rest

/-- the issues of each entry, those of the key first -/
def entryIssues (check : List Step → Value → List Issue) (path : List Step) : List (String × Value) → List Issue
  | [] => []
  | (key, v) :: rest =>
    textIssues (path ++ [.key key]) (nameOf key) ++ check (path ++ [.key key]) v ++ entryIssues check path rest

/-- the keys of an object that no field is called by -/
def unknownKeyIssues (known : List String) (path : List Step) (entries : List (String × Value)) : List Issue :=
  match (entries.map (·.1)).filter fun k => k ∉ known with
  | [] => []
  | keys => [⟨path, .unknownKeys keys⟩]

mutual

/-- all departures of a value from a shape -/
def issues : Shape → List Step → Value → List Issue
  | .name, path, .string s => textIssues path (nameOf s)
  | .segment, path, .string s => textIssues path s
  | .list nonempty item, path, .array items =>
    (if nonempty && items.isEmpty then [⟨path, .emptyList⟩] else []) ++ itemIssues item.issues path 0 items
  | .table entry, path, .object entries => entryIssues entry.issues path entries
  | .record fields, path, .object entries =>
    fieldIssues fields path entries ++ unknownKeyIssues (fields.map (·.1)) path entries
  | shape, path, v => mismatch shape path v.kind

/-- the departures of the fields, each looked up under its name -/
def fieldIssues : List (String × Bool × Shape) → List Step → List (String × Value) → List Issue
  | [], _, _ => []
  | (key, required, shape) :: rest, path, entries =>
    (match entries.lookup key with
      | some v => shape.issues (path ++ [.key key]) v
      | none => if required then mismatch shape (path ++ [.key key]) .missing else []) ++
    fieldIssues rest path entries

end

end Shape

end ChangeImpact
