/-
Paths as texts.

A path that begins with a slash starts at the root, any other one in a directory that is known from
elsewhere. `absolute` writes a path from the root without empty names, single dots and double dots;
a double dot takes back the name before it, and at the root nothing.
-/
import ChangeImpact.Text.Lines

namespace ChangeImpact.Path

open ChangeImpact.Text

/-- the names of a path, with those that are empty -/
def names (path : String) : List String :=
  splitAt '/' path

def startsAtRoot (path : String) : Bool :=
  path.toList.head? = some '/'

/-- follows names from a place; both are lists of names from the root -/
def follow (place : List String) : List String → List String
  | [] => place
  | name :: rest =>
    if name = "" ∨ name = "." then follow place rest
    else if name = ".." then follow place.dropLast rest
    else follow (place ++ [name]) rest

/-- the path of a place -/
def ofPlace (place : List String) : String :=
  String.ofList ('/' :: joinPieces '/' (place.map String.toList))

/-- where a path leads from a directory, the names alone deciding -/
def place (directory path : String) : List String :=
  if startsAtRoot path then follow [] (names path) else follow [] (names directory ++ names path)

/-- the path from the root -/
def absolute (directory path : String) : String :=
  ofPlace (place directory path)

/-- the part of a path in front of its last name, a dot when there is none -/
def parent (path : String) : String :=
  let backwards := path.toList.reverse.dropWhile (· = '/')
  match backwards.dropWhile (· ≠ '/') with
  | [] => if startsAtRoot path then "/" else "."
  | '/' :: [] => "/"
  | '/' :: before => String.ofList before.reverse
  | before => String.ofList before.reverse

end ChangeImpact.Path
