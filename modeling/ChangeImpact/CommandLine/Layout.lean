/-
Words set in lines and lines set in two columns.

`fill` puts as many words on a line as the width allows, and a word that is wider on a line of its
own. `entry` writes a term and beside it its description, which goes on below itself when it is too
long for one line.
-/
import ChangeImpact.Text.Lines

namespace ChangeImpact.Layout

/-- puts words on lines after one that is begun -/
def fillFrom (width : Nat) (line : String) : List String → List String
  | [] => [line]
  | w :: ws =>
    if line.length + 1 + w.length ≤ width then fillFrom width (line ++ " " ++ w) ws else line :: fillFrom width w ws

/-- puts words on lines of at most so many characters -/
def fill (width : Nat) : List String → List String
  | [] => []
  | w :: ws => fillFrom width w ws

def spaces (n : Nat) : String :=
  String.ofList (List.replicate n ' ')

/-- the text with spaces after it that make it so wide -/
def padded (width : Nat) (s : String) : String :=
  s ++ spaces (width - s.length)

/-- the width of a page -/
def pageWidth : Nat := 80

/-- how far the entries of a list stand from the margin, and their descriptions from the terms -/
def gap : Nat := 2

/-- one entry of a list whose terms are so wide -/
def entry (termWidth : Nat) (term description : String) : List String :=
  let column := gap + termWidth + gap
  match fill (pageWidth - column - 1) (Text.splitAt ' ' description) with
  | [] => [spaces gap ++ term]
  | first :: rest => (spaces gap ++ padded (termWidth + gap) term ++ first) :: rest.map (spaces column ++ ·)

end ChangeImpact.Layout
