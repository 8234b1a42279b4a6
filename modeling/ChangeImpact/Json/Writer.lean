/-
Writing values as JSON.

`Json.write` has no spaces and keeps the order of the fields. In a string the quote, the backslash
and the control characters below U+0020 are escaped and nothing else is, so a written value never
contains a line feed. A number that is not finite is written as null. `Json.writeLines` spreads an
object of strings over several lines, two spaces deep.
-/
import ChangeImpact.Value.Basic

namespace ChangeImpact.Json

def hexDigit (n : Nat) : Char :=
  Nat.digitChar (n % 16)

/-- a character as it stands in a string -/
def escape (c : Char) : List Char :=
  if c = '"' then ['\\', '"']
  else if c = '\\' then ['\\', '\\']
  else if c = '\n' then ['\\', 'n']
  else if c = '\r' then ['\\', 'r']
  else if c = '\t' then ['\\', 't']
  else if c.toNat = 8 then ['\\', 'b']
  else if c.toNat = 12 then ['\\', 'f']
  else if c.toNat < 0x20 then ['\\', 'u', '0', '0', hexDigit (c.toNat / 16), hexDigit c.toNat]
  else [c]

def quote (s : String) : List Char :=
  '"' :: s.toList.flatMap escape ++ ['"']

def writeNumber (n : Number) : List Char :=
  match n with
  | .finite _ => n.text
  | _ => "null".toList

mutual

def write : Value → List Char
  | .null => "null".toList
  | .bool b => (if b then "true" else "false").toList
  | .number n => writeNumber n
  | .string s => quote s
  | .array items => '[' :: writeItems items ++ [']']
  | .object fields => '{' :: writeFields fields ++ ['}']

def writeItems : List Value → List Char
  | [] => []
  | [v] => write v
  | v :: rest => write v ++ ',' :: writeItems rest

def writeFields : List (String × Value) → List Char
  | [] => []
  | [(key, v)] => quote key ++ ':' :: write v
  | (key, v) :: rest => quote key ++ ':' :: write v ++ ',' :: writeFields rest

end

/-- the lines between the braces of an object of strings -/
def fieldLines : List (String × String) → List Char
  | [] => []
  | [(key, s)] => ' ' :: ' ' :: quote key ++ ':' :: ' ' :: quote s ++ ['\n']
  | (key, s) :: rest => ' ' :: ' ' :: quote key ++ ':' :: ' ' :: quote s ++ ',' :: '\n' :: fieldLines rest

/-- an object of strings, one field on each line -/
def writeLines (fields : List (String × String)) : List Char :=
  '{' :: '\n' :: fieldLines fields ++ ['}']

end ChangeImpact.Json
