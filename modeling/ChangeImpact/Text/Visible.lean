/-
Foreign text made fit to be shown.

What another program printed may hold characters that show nothing or that a terminal takes for
commands. `shownLines` leaves out control sequences and writes every other hidden character by its
code point, so that what is left can be read; line feeds stay, and so do spaces. A character is
hidden when it is a separator, a control or formatting character, for private use, or stands in a
block without characters. `quoted` is a word as a shell takes it.
-/
import ChangeImpact.Text.Lines

namespace ChangeImpact.Text

/-! ## Hidden characters -/

/-- the hidden characters, as inclusive ranges of code points -/
def hiddenRanges : List (Nat × Nat) :=
  [(0x0, 0x20), (0x7F, 0xA0), (0xAD, 0xAD), (0x600, 0x605), (0x61C, 0x61C), (0x6DD, 0x6DD), (0x70F, 0x70F), (0x890, 0x891),
   (0x8E2, 0x8E2), (0x1680, 0x1680), (0x180E, 0x180E), (0x2000, 0x200F), (0x2028, 0x202F), (0x205F, 0x206F),
   (0x3000, 0x3000), (0xD800, 0xF8FF), (0xFDD0, 0xFDEF), (0xFEFF, 0xFEFF), (0xFFF0, 0xFFFB), (0xFFFE, 0xFFFF),
   (0x110BD, 0x110BD), (0x110CD, 0x110CD), (0x13430, 0x1343F), (0x1BCA0, 0x1BCA3), (0x1D173, 0x1D17A), (0x1FFFE, 0x1FFFF),
   (0x2FFFE, 0x2FFFF), (0x323B0, 0xE00FF), (0xE01F0, 0x10FFFF)]

def isHidden (c : Char) : Bool :=
  hiddenRanges.any fun r => r.1 ≤ c.toNat && c.toNat ≤ r.2

/-- the hexadecimal digits of a number, with zeros in front to make at least so many -/
def hexDigits (width n : Nat) : List Char :=
  let ds := Nat.toDigits 16 n
  List.replicate (width - ds.length) '0' ++ ds

/-- a character so that it can be seen -/
def shownChar (c : Char) : List Char :=
  match c with
  | ' ' => [' ']
  | '\x08' => ['\\', 'b']
  | '\x0c' => ['\\', 'f']
  | '\n' => ['\\', 'n']
  | '\r' => ['\\', 'r']
  | '\t' => ['\\', 't']
  | c =>
    if !isHidden c then [c]
    else if c.toNat < 0x10000 then '\\' :: 'u' :: hexDigits 4 c.toNat
    else '\\' :: 'U' :: hexDigits 0 c.toNat

def shown (cs : List Char) : List Char :=
  cs.flatMap shownChar

/-! ## Control sequences -/

/-- a character that starts a control sequence -/
def startsSequence (c : Char) : Bool :=
  c.toNat = 0x1B || c.toNat = 0x9B

/-- a character that may follow the start of a control sequence, any number of times -/
def introduces (c : Char) : Bool :=
  c ∈ ['[', ']', '(', ')', '#', ';', '?']

/-- a character of an argument of a command with an end mark -/
def inArgument (c : Char) : Bool :=
  c.isAlphanum || c ∈ ['-', '/', '#', '&', '.', ':', '=', '?', '%', '@', '~', '_']

/-- a character that ends a command without an end mark -/
def endsCommand (c : Char) : Bool :=
  c.isDigit || ('A' ≤ c && c ≤ 'P') || ('R' ≤ c && c ≤ 'T') || c = 'Z' || c = 'c' || ('f' ≤ c && c ≤ 'n') ||
    c ∈ ['t', 'q', 'r', 'y', '=', '>', '<', '~']

/-- what follows a command with an end mark: arguments between semicolons, where only those after a name
of its own may be empty -/
def afterMarked? (cs : List Char) : Option (List Char) :=
  let body := cs.takeWhile fun c => inArgument c || c = ';'
  let wellFormed :=
    match pieces ';' body with
    | [] :: arguments => arguments.all (· ≠ [])
    | name :: _ => name.all Char.isAlphanum
    | [] => false
  let mark := cs.drop body.length
  if !wellFormed then none
  else
    match mark with
    | '\x07' :: rest => some rest
    | '\x1b' :: '\\' :: rest => some rest
    | '\x9c' :: rest => some rest
    | _ => none

/-- what follows the longest command without an end mark: numbers of at most four digits, then one last
character. `room` is the number of digits that the number at hand may still have, if there is one -/
def afterCommand? (room : Option Nat) : List Char → Option (List Char)
  | [] => none
  | c :: rest =>
    let longer :=
      match room with
      | none => if c.isDigit then afterCommand? (some 3) rest else none
      | some n =>
        if c = ';' then afterCommand? (some 4) rest
        else if c.isDigit && 0 < n then afterCommand? (some (n - 1)) rest
        else none
    longer.orElse fun _ => if endsCommand c then some rest else none

/-- what follows a control sequence, given what comes after its start -/
def afterSequence? (cs : List Char) : Option (List Char) :=
  (List.range ((cs.takeWhile introduces).length + 1)).reverse.findSome? fun n =>
    (afterMarked? (cs.drop n)).orElse fun _ => afterCommand? none (cs.drop n)

/-- leaves out control sequences, and first of all so many characters of one that has begun -/
def withoutSequences (skipped : Nat) : List Char → List Char
  | [] => []
  | c :: rest =>
    match skipped with
    | n + 1 => withoutSequences n rest
    | 0 =>
      match if startsSequence c then afterSequence? rest else none with
      | some after => withoutSequences (rest.length - after.length) rest
      | none => c :: withoutSequences 0 rest

/-! ## Texts -/

/-- a text with its lines made fit to be shown -/
def shownLines (cs : List Char) : List Char :=
  joinPieces '\n' ((pieces '\n' (withoutSequences 0 cs)).map shown)

/-- a word that a shell takes as it stands -/
def isPlainWord (cs : List Char) : Bool :=
  !cs.isEmpty && cs.all fun c => c.isAlphanum || c ∈ ['_', '.', '/', '-']

/-- a word for a shell: one that is not plain stands between single quotes -/
def quoted (cs : List Char) : List Char :=
  if isPlainWord cs then cs
  else '\'' :: cs.flatMap (fun c => if c = '\'' then ['\'', '\\', '\'', '\''] else [c]) ++ ['\'']

/-- a text without one line feed at its end, and without a carriage return before that -/
def withoutLineEnd (cs : List Char) : List Char :=
  match cs.reverse with
  | '\n' :: '\r' :: rest => rest.reverse
  | '\n' :: rest => rest.reverse
  | _ => cs

end ChangeImpact.Text
