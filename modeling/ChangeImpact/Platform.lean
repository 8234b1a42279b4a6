/-
The platforms that have exclusions of their own.

A run is for one platform, given by name or else taken from the host. Any name is accepted: one that
is none of the three simply has no exclusions, unless the caller is strict (`Platform.resolve`).
`PerPlatform` is a value for each of the three.
-/
import ChangeImpact.Failure

namespace ChangeImpact

inductive Platform where
  | linux
  | windows
  | darwin
  deriving DecidableEq, Repr

namespace Platform

/-- the platforms in the order in which they are listed -/
def all : List Platform :=
  [linux, windows, darwin]

def name : Platform → String
  | linux => "Linux"
  | windows => "Windows"
  | darwin => "Darwin"

def ofName? (s : String) : Option Platform :=
  all.find? fun p => p.name = s

/-- the name a host goes by: the system's own name, but for one system that calls itself otherwise -/
def hostName (systemName : String) : String :=
  if systemName = "Windows_NT" then windows.name else systemName

/-- the name that is meant: the one given, or the host's when none or a blank one is given -/
def named (given : Option String) (systemName : String) : String :=
  (given.bind Text.present?).getD (hostName systemName)

/-- the refusal of a name that is no platform's -/
structure Unknown where
  name : String

def Unknown.message (u : Unknown) : String :=
  "Platform \"" ++ u.name ++ "\" is not one of " ++ ", ".intercalate (Platform.all.map Platform.name) ++ "."

/-- the refusal as a user is told of it -/
def Unknown.failure (u : Unknown) : Failure :=
  let kind := ErrorKind.reported "INPUT_ERROR" "Unknown platform."
    (some "Pass one of the listed platforms, or drop --strict-platform to run without exclusions.") none
  .error kind kind.name u.message none none

/-- the name that is meant; a strict caller accepts the platforms' names only -/
def resolve (given : Option String) (systemName : String) (strict : Bool) : Except Unknown String :=
  let meant := named given systemName
  if strict ∧ ofName? meant = none then .error ⟨meant⟩ else .ok meant

@[simp] theorem ofName?_name (p : Platform) : ofName? p.name = some p := by
  cases p <;> decide

theorem name_of_ofName? {s : String} {p : Platform} (h : ofName? s = some p) : s = p.name := by
  have := List.find?_some h
  simpa [eq_comm] using this

theorem resolve_eq_ok_iff {given : Option String} {systemName meant : String} {strict : Bool} :
    resolve given systemName strict = .ok meant ↔
      named given systemName = meant ∧ (strict = true → ofName? meant ≠ none) := by
  unfold resolve
  by_cases h : strict = true ∧ ofName? (named given systemName) = none
  · simp only [h, and_self, if_true]
    constructor
    · intro he
      contradiction
    · rintro ⟨rfl, hknown⟩
      exact absurd h.2 (hknown trivial)
  · simp only [h, if_false, Except.ok.injEq]
    constructor
    · rintro rfl
      exact ⟨rfl, fun hstrict hnone => h ⟨hstrict, hnone⟩⟩
    · exact fun hm => hm.1

theorem strict_of_resolve_eq_error {given : Option String} {systemName : String} {strict : Bool} {u : Unknown}
    (h : resolve given systemName strict = .error u) : strict = true := by
  cases strict with
  | true => rfl
  | false =>
    have hok : resolve given systemName false = .ok (named given systemName) := resolve_eq_ok_iff.mpr ⟨rfl, nofun⟩
    rw [hok] at h
    contradiction

end Platform

/-- a value for each platform -/
structure PerPlatform (α : Type) where
  linux : α
  windows : α
  darwin : α
  deriving DecidableEq

namespace PerPlatform

variable {α β : Type}

def get (t : PerPlatform α) : Platform → α
  | .linux => t.linux
  | .windows => t.windows
  | .darwin => t.darwin

def map (f : α → β) (t : PerPlatform α) : PerPlatform β :=
  ⟨f t.linux, f t.windows, f t.darwin⟩

/-- the value for the platform of that name, if it is one's -/
def named (t : PerPlatform α) (name : String) : Option α :=
  (Platform.ofName? name).map t.get

@[simp] theorem get_map (f : α → β) (t : PerPlatform α) (p : Platform) : (t.map f).get p = f (t.get p) := by
  cases p <;> rfl

end PerPlatform

end ChangeImpact
