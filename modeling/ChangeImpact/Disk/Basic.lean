/-
Files, folders and links, and what is done with them.

A `Disk` says what stands at each place; a place is a list of names from the root, where there is
always a folder. A path is followed name by name (`Disk.find`): a link is replaced by what it leads
to, at most 40 times, a double dot goes back to the folder above, and only a folder has names below
it. `Trouble` is what can come in the way, and `Trouble.message` how it is told.
-/
import ChangeImpact.Disk.Path

namespace ChangeImpact

/-- a list of names from the root -/
abbrev Location := List String

inductive Content where
  | file (text : String)
  | folder
  | link (target : String)
  deriving DecidableEq

structure Disk where
  entries : List (Location × Content)

inductive Trouble where
  | missing
  | isFolder
  | notFolder
  | exists
  | tooManyLinks
  | longName
  deriving DecidableEq

namespace Trouble

def code : Trouble → String
  | missing => "ENOENT"
  | isFolder => "EISDIR"
  | notFolder => "ENOTDIR"
  | .exists => "EEXIST"
  | tooManyLinks => "ELOOP"
  | longName => "ENAMETOOLONG"

def phrase : Trouble → String
  | missing => "no such file or directory"
  | isFolder => "illegal operation on a directory"
  | notFolder => "not a directory"
  | .exists => "file already exists"
  | tooManyLinks => "too many symbolic links encountered"
  | longName => "name too long"

end Trouble

/-- a trouble with what was done when it arose, and to which path, if that is told -/
structure DiskError where
  trouble : Trouble
  action : String
  path : Option String

def DiskError.message (e : DiskError) : String :=
  e.trouble.code ++ ": " ++ e.trouble.phrase ++ ", " ++ e.action ++ (e.path.map fun p => " '" ++ p ++ "'").getD ""

/-- how far a path leads without following a link -/
inductive Walk where
  /-- to a place where something stands -/
  | at (place : Location)
  /-- to a link, with the names that are left -/
  | link (folder : Location) (target : String) (rest : List String)
  /-- to a name that the folder does not have, with the names that are left -/
  | missing (folder : Location) (name : String) (rest : List String)
  | stuck (trouble : Trouble)

namespace Disk

/-- what stands at a place -/
def standing? (d : Disk) (place : Location) : Option Content :=
  if place = [] then some .folder else d.entries.lookup place

/-- the text of the file at a place -/
def text? (d : Disk) (place : Location) : Option String :=
  match d.standing? place with
  | some (.file text) => some text
  | _ => none

def putAt : List (Location × Content) → Location → Content → List (Location × Content)
  | [], place, e => [(place, e)]
  | (p, old) :: rest, place, e => if p = place then (place, e) :: rest else (p, old) :: putAt rest place e

/-- the disk with something put at a place -/
def put (d : Disk) (place : Location) (e : Content) : Disk :=
  ⟨putAt d.entries place e⟩

/-- follows names from a place, up to the first link -/
def walk (d : Disk) (place : Location) : List String → Walk
  | [] => .at place
  | name :: rest =>
    if name = "" ∨ name = "." then walk d place rest
    else if name = ".." then walk d place.dropLast rest
    else if 255 < name.utf8ByteSize then .stuck .longName
    else
      match d.standing? (place ++ [name]) with
      | none => .missing place name rest
      | some .folder => walk d (place ++ [name]) rest
      | some (.file _) => if rest = [] then .at (place ++ [name]) else .stuck .notFolder
      | some (.link target) => .link place target rest

/-- follows names from a place through at most so many links -/
def follow (d : Disk) : Nat → Location → List String → Walk
  | links, place, names =>
    match d.walk place names with
    | .link folder target rest =>
      match links with
      | 0 => .stuck .tooManyLinks
      | links + 1 => follow d links (if Path.startsAtRoot target then [] else folder) (Path.names target ++ rest)
    | arrived => arrived

/-- where a path leads from a directory -/
def find (d : Disk) (directory : Location) (path : String) : Walk :=
  d.follow 40 (if Path.startsAtRoot path then [] else directory) (Path.names path)

/-- the place of what a path leads to, links replaced -/
def real? (d : Disk) (directory : Location) (path : String) : Option Location :=
  match d.find directory path with
  | .at place => if path = "" then none else some place
  | _ => none

/-- what a path leads to -/
def look (d : Disk) (directory : Location) (path : String) : Except DiskError Content :=
  match d.find directory path with
  | .at place =>
    match d.standing? place with
    | some e => .ok e
    | none => .error ⟨.missing, "stat", some path⟩
  | .stuck t => .error ⟨t, "stat", some path⟩
  | _ => .error ⟨.missing, "stat", some path⟩

/-- the text of the file at a path -/
def read (d : Disk) (directory : Location) (path : String) : Except DiskError String :=
  match d.find directory path with
  | .at place =>
    match d.text? place with
    | some text => .ok text
    | none => .error ⟨.isFolder, "read", none⟩
  | .stuck t => .error ⟨t, "open", some path⟩
  | _ => .error ⟨.missing, "open", some path⟩

/-- makes the folders that a path names, as many as are missing -/
def makeFolders (d : Disk) (directory : Location) (path : String) : Except DiskError Disk :=
  let rec make : Nat → Disk → Except DiskError Disk
    | 0, d => .ok d
    | missing + 1, d =>
      match d.find directory path with
      | .at place =>
        match d.standing? place with
        | some .folder => .ok d
        | _ => .error ⟨.exists, "mkdir", some path⟩
      | .missing folder name _ => make missing (d.put (folder ++ [name]) .folder)
      | .stuck t => .error ⟨t, "mkdir", some path⟩
      | .link .. => .error ⟨.tooManyLinks, "mkdir", some path⟩
  make ((Path.names path).length + 1) d

/-- adds to the end of the file at a path, a new one if there is none -/
def append (d : Disk) (directory : Location) (path : String) (added : String) : Except DiskError Disk :=
  match d.find directory path with
  | .at place =>
    match d.text? place with
    | some text => .ok (d.put place (.file (text ++ added)))
    | none => .error ⟨.isFolder, "open", some path⟩
  | .missing folder name [] => .ok (d.put (folder ++ [name]) (.file added))
  | .missing _ _ (next :: _) => .error ⟨if next = "" then .isFolder else .missing, "open", some path⟩
  | .stuck t => .error ⟨t, "open", some path⟩
  | .link .. => .error ⟨.tooManyLinks, "open", some path⟩

/-- a path names the very file at a place, given by its own path and without a link on the way -/
def isSameFile (d : Disk) (directory : Location) (path : Option String) (own : String) : Bool :=
  match path.bind (d.real? directory) with
  | some place => Path.ofPlace place = own
  | none => false

theorem lookup_putAt (entries : List (Location × Content)) (place other : Location) (e : Content) :
    (putAt entries place e).lookup other = if other = place then some e else entries.lookup other := by
  induction entries with
  | nil =>
    by_cases h : other = place
    · simp [putAt, h]
    · simp [putAt, List.lookup_cons, beq_false_of_ne h, h]
  | cons f rest ih =>
    obtain ⟨p, old⟩ := f
    rw [putAt]
    split
    · next hp =>
      subst hp
      by_cases h : other = p <;> simp [List.lookup_cons, h, beq_false_of_ne]
    · next hp =>
      by_cases h : other = p
      · subst h
        simp [hp]
      · simp [List.lookup_cons, beq_false_of_ne h, ih]

theorem standing?_put (d : Disk) (place other : Location) (e : Content) (h : place ≠ []) :
    (d.put place e).standing? other = if other = place then some e else d.standing? other := by
  by_cases ho : other = []
  · subst ho
    simp [standing?, Ne.symm h]
  · simp [standing?, ho, put, lookup_putAt]

end Disk

end ChangeImpact
