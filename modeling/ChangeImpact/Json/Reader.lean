/-
Reading JSON.

`Json.read?` reads one value with blanks around it and refuses everything else. Numbers are rounded
to the nearest number, and a field that is written twice keeps its place and takes its last value,
as `Fields.ofEntries` says. Two escapes that are the halves of one character make that character; a
lone half is replaced.
-/
import ChangeImpact.Text.Utf8
import ChangeImpact.Value.Basic

namespace ChangeImpact.Json

def isSpace (c : Char) : Bool :=
  c = ' ' || c = '\n' || c = '\r' || c = '\t'

def skipSpaces (cs : List Char) : List Char :=
  cs.dropWhile isSpace

def hexValue? (c : Char) : Option Nat :=
  if c.isDigit then some (c.toNat - '0'.toNat)
  else if 'a' ≤ c ∧ c ≤ 'f' then some (c.toNat - 'a'.toNat + 10)
  else if 'A' ≤ c ∧ c ≤ 'F' then some (c.toNat - 'A'.toNat + 10)
  else none

/-- the code unit that four hexadecimal digits write -/
def unit? (a b c d : Char) : Option Nat := do
  let a ← hexValue? a
  let b ← hexValue? b
  let c ← hexValue? c
  let d ← hexValue? d
  return ((a * 16 + b) * 16 + c) * 16 + d

def isHigh (n : Nat) : Bool := 0xD800 ≤ n && n < 0xDC00

def isLow (n : Nat) : Bool := 0xDC00 ≤ n && n < 0xE000

/-- the character of a code unit that stands alone -/
def ofUnit (n : Nat) : Char :=
  if isHigh n || isLow n then Text.replacement else Char.ofNat n

/-- the character of two halves -/
def ofPair (high low : Nat) : Char :=
  Char.ofNat (0x10000 + (high - 0xD800) * 0x400 + (low - 0xDC00))

/-- the character that a one-letter escape stands for -/
def escaped? (c : Char) : Option Char :=
  if c = '"' ∨ c = '\\' ∨ c = '/' then some c
  else if c = 'n' then some '\n'
  else if c = 'r' then some '\r'
  else if c = 't' then some '\t'
  else if c = 'b' then some (Char.ofNat 8)
  else if c = 'f' then some (Char.ofNat 12)
  else none

/-- the second half of a pair, when it follows -/
def lowHalf? : List Char → Option (Nat × List Char)
  | '\\' :: 'u' :: a :: b :: c :: d :: rest =>
    match unit? a b c d with
    | some n => if isLow n then some (n, rest) else none
    | none => none
  | _ => none

/-- the characters of a string up to its closing quote, and what follows it; `fuel` is at least the length -/
def readChars : Nat → List Char → Option (List Char × List Char)
  | 0, _ => none
  | _, [] => none
  | _, '"' :: rest => some ([], rest)
  | fuel + 1, '\\' :: 'u' :: a :: b :: c :: d :: rest => do
    let n ← unit? a b c d
    match if isHigh n then lowHalf? rest else none with
    | some (low, after) =>
      let (cs, last) ← readChars fuel after
      return (ofPair n low :: cs, last)
    | none =>
      let (cs, last) ← readChars fuel rest
      return (ofUnit n :: cs, last)
  | fuel + 1, '\\' :: c :: rest => do
    let e ← escaped? c
    let (cs, last) ← readChars fuel rest
    return (e :: cs, last)
  | fuel + 1, c :: rest =>
    if c.toNat < 0x20 then none
    else do
      let (cs, last) ← readChars fuel rest
      return (c :: cs, last)

def isNumeral (c : Char) : Bool :=
  c.isDigit || c = '-' || c = '+' || c = '.' || c = 'e' || c = 'E'

/-- the number of a text that JSON allows: no plus sign, no needless zero in front, digits on both sides
of a point -/
def readNumber? (cs : List Char) : Option Number := do
  let n ← Numeral.ofText? cs
  if n.sign = some '+' ∨ n.fraction = some [] then none
  else match n.whole with
    | [] => none
    | c :: rest => if c = '0' ∧ rest ≠ [] then none else some n.number

/-- what follows a word -/
def afterWord? : List Char → List Char → Option (List Char)
  | [], cs => some cs
  | w :: ws, c :: cs => if w = c then afterWord? ws cs else none
  | _ :: _, [] => none

mutual

/-- one value and what follows it -/
def readValue : Nat → List Char → Option (Value × List Char)
  | 0, _ => none
  | fuel + 1, cs =>
    match skipSpaces cs with
    | [] => none
    | '"' :: rest => (readChars (rest.length + 1) rest).map fun (s, after) => (.string (String.ofList s), after)
    | '[' :: rest =>
      match skipSpaces rest with
      | ']' :: after => some (.array [], after)
      | _ => (readItems fuel rest).map fun (vs, after) => (.array vs, after)
    | '{' :: rest =>
      match skipSpaces rest with
      | '}' :: after => some (.object [], after)
      | _ => (readFields fuel rest).map fun (fs, after) => (Value.ofEntries fs, after)
    | 'n' :: rest => (afterWord? "ull".toList rest).map fun after => (.null, after)
    | 't' :: rest => (afterWord? "rue".toList rest).map fun after => (.bool true, after)
    | 'f' :: rest => (afterWord? "alse".toList rest).map fun after => (.bool false, after)
    | start => (readNumber? (start.takeWhile isNumeral)).map fun n => (.number n, start.dropWhile isNumeral)

/-- the items of an array up to its bracket -/
def readItems : Nat → List Char → Option (List Value × List Char)
  | 0, _ => none
  | fuel + 1, cs => do
    let (v, rest) ← readValue fuel cs
    match skipSpaces rest with
    | ',' :: more =>
      let (vs, after) ← readItems fuel more
      return (v :: vs, after)
    | ']' :: after => return ([v], after)
    | _ => none

/-- the fields of an object up to its brace -/
def readFields : Nat → List Char → Option (List (String × Value) × List Char)
  | 0, _ => none
  | fuel + 1, cs => do
    match skipSpaces cs with
    | '"' :: rest =>
      let (key, afterKey) ← readChars (rest.length + 1) rest
      match skipSpaces afterKey with
      | ':' :: more =>
        let (v, rest) ← readValue fuel more
        match skipSpaces rest with
        | ',' :: next =>
          let (fs, after) ← readFields fuel next
          return ((String.ofList key, v) :: fs, after)
        | '}' :: after => return ([(String.ofList key, v)], after)
        | _ => none
      | _ => none
    | _ => none

end

/-- the value that a text is -/
def read? (s : String) : Option Value := do
  let cs := s.toList
  let (v, rest) ← readValue (cs.length + 1) cs
  if skipSpaces rest = [] then some v else none

end ChangeImpact.Json
