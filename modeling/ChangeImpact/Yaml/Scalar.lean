/-
The contents of scalars.

A plain or single-quoted scalar is folded: a single line end counts as a space, and of several in a
row all but the first count. A double-quoted scalar has escape sequences besides. A block scalar
keeps its line ends or folds them, without the indentation that all its lines share. What a plain
scalar then stands for is decided by its text (`plainValue`).
-/
import ChangeImpact.Yaml.Token
import ChangeImpact.Value.Basic

namespace ChangeImpact.Yaml

/-! ## Folding -/

/-- the lines of a text, a carriage return before a line feed not counted -/
def textLines : List Char → List (List Char)
  | [] => [[]]
  | '\r' :: '\n' :: rest => [] :: textLines rest
  | c :: rest =>
    if c = '\n' then [] :: textLines rest
    else
      match textLines rest with
      | [] => [[c]]
      | l :: ls => (c :: l) :: ls

def dropBlanks (cs : List Char) : List Char :=
  cs.dropWhile isSpaceOrTab

def dropBlanksEnd (cs : List Char) : List Char :=
  (dropBlanks cs.reverse).reverse

/-- the lines after the first one, joined to it; `pending` is the line end that was read before them -/
def foldRest (pending : Char) : List (List Char) → List Char
  | [] => []
  | [last] => pending :: dropBlanks last
  | line :: rest =>
    match dropBlanksEnd (dropBlanks line) with
    | [] => if pending = '\n' then '\n' :: foldRest '\n' rest else foldRest '\n' rest
    | text => pending :: text ++ foldRest ' ' rest

/-- a text of several lines as one, blank space around its line ends dropped -/
def fold (cs : List Char) : List Char :=
  match textLines cs with
  | [] => []
  | [line] => line
  | first :: rest => dropBlanksEnd first ++ foldRest ' ' rest

def plainText (cs : List Char) : Except Fault (List Char) :=
  match cs with
  | [] => .ok []
  | c :: _ => if "\t,%|>@\x60".toList.contains c then .error .badStart else .ok (fold cs)

/-- a quote that is written twice stands for one -/
def halveQuotes : List Char → List Char
  | '\'' :: '\'' :: rest => '\'' :: halveQuotes rest
  | c :: rest => c :: halveQuotes rest
  | [] => []

/-- the characters between the quotes -/
def unquote (quote : Char) (cs : List Char) : Except Fault (List Char) :=
  let inner := cs.drop 1
  if inner.getLast? = some quote then .ok inner.dropLast else .error .unclosedQuote

def singleText (cs : List Char) : Except Fault (List Char) := do
  return halveQuotes (fold (← unquote '\'' cs))

/-! ## Escape sequences -/

/-- what an escape sequence of one character stands for -/
def escapes : List (Char × Nat) :=
  [('0', 0), ('a', 7), ('b', 8), ('e', 0x1B), ('f', 0xC), ('n', 0xA), ('r', 0xD), ('t', 9), ('v', 0xB), ('N', 0x85),
   ('_', 0xA0), ('L', 0x2028), ('P', 0x2029), (' ', 0x20), ('"', 0x22), ('/', 0x2F), ('\\', 0x5C), ('\t', 9)]

def hexValue (c : Char) : Nat :=
  if c.isDigit then c.toNat - '0'.toNat else (c.toNat - 'A'.toNat) % 32 + 10

def hexNumber (cs : List Char) : Nat :=
  cs.foldl (fun n c => n * 16 + hexValue c) 0

/-- how many digits an escape sequence for a code point has -/
def codeDigits (c : Char) : Nat :=
  if c = 'x' then 2 else if c = 'u' then 4 else if c = 'U' then 8 else 0

/-- the line ends after the first one, up to the next character -/
def blankLinesAfter : List Char → Nat
  | [] => 0
  | '\r' :: '\n' :: rest => blankLinesAfter rest + 1
  | c :: rest => if c = '\n' then blankLinesAfter rest + 1 else if isSpaceOrTab c then blankLinesAfter rest else 0

/-- what follows the line ends and the blank space after them -/
def afterBlankLines : List Char → List Char
  | [] => []
  | '\r' :: '\n' :: rest => afterBlankLines rest
  | c :: rest => if c = '\n' || isSpaceOrTab c then afterBlankLines rest else c :: rest

/-- the text begins with a line end -/
def atLineEnd : List Char → Bool
  | '\n' :: _ => true
  | '\r' :: '\n' :: _ => true
  | _ => false

/-- the code points of a double-quoted text; `fuel` is at least its length -/
def doubleUnits : Nat → List Char → Except Fault (List Nat)
  | 0, _ => .ok []
  | _, [] => .ok []
  | fuel + 1, '\\' :: rest =>
    match rest with
    | [] => .error .badEscape
    | '\n' :: more => doubleUnits fuel (dropBlanks more)
    | '\r' :: '\n' :: more => doubleUnits fuel (dropBlanks more)
    | c :: more =>
      match escapes.lookup c with
      | some n => do return n :: (← doubleUnits fuel more)
      | none =>
        let digits := more.take (codeDigits c)
        if codeDigits c = 0 || digits.length < codeDigits c || !digits.all isHexDigit || 0x10FFFF < hexNumber digits then
          .error .badEscape
        else do return hexNumber digits :: (← doubleUnits fuel (more.drop (codeDigits c)))
  | fuel + 1, c :: rest =>
    if c = '\n' then
      let n := blankLinesAfter rest
      do return (if n = 0 then [0x20] else List.replicate n 0xA) ++ (← doubleUnits fuel (afterBlankLines rest))
    else if c = '\r' && rest.head? = some '\n' then doubleUnits fuel rest
    else if isSpaceOrTab c then
      let blanks := c :: rest.takeWhile isSpaceOrTab
      let after := dropBlanks rest
      do return (if atLineEnd after then [] else blanks.map Char.toNat) ++ (← doubleUnits fuel after)
    else do return c.toNat :: (← doubleUnits fuel rest)

/-- code points as characters, two halves of a surrogate pair as one -/
def joinHalves : List Nat → List Char
  | [] => []
  | [n] => [if Nat.isValidChar n then Char.ofNat n else Char.ofNat 0xFFFD]
  | n :: m :: rest =>
    if 0xD800 ≤ n && n < 0xDC00 && 0xDC00 ≤ m && m < 0xE000 then
      Char.ofNat (0x10000 + (n - 0xD800) * 0x400 + (m - 0xDC00)) :: joinHalves rest
    else (if Nat.isValidChar n then Char.ofNat n else Char.ofNat 0xFFFD) :: joinHalves (m :: rest)

def doubleText (cs : List Char) : Except Fault (List Char) := do
  let inner ← unquote '"' cs
  return joinHalves (← doubleUnits (inner.length + 1) inner)

/-! ## Block scalars -/

structure BlockHeader where
  folded : Bool
  /-- the indentation that the header asks for, 0 when it leaves it to the text -/
  indent : Nat := 0
  /-- what becomes of the line ends at the end: dropped, kept, or, when it is not said, reduced to one -/
  chomp : Option Char := none

/-- the settings of a header, each at most once -/
def readHeader (h : BlockHeader) : List Char → Except Fault BlockHeader
  | [] => .ok h
  | c :: rest =>
    if h.chomp.isNone && (c = '-' || c = '+') then readHeader { h with chomp := some c } rest
    else if h.indent = 0 && c.isDigit && c ≠ '0' then readHeader { h with indent := c.toNat - '0'.toNat } rest
    else .error .blockHeader

/-- a line of a block scalar: its indentation and what follows it -/
structure BlockLine where
  spaces : Nat
  content : List Char

def BlockLine.isEmpty (l : BlockLine) : Bool :=
  l.content = [] || l.content = ['\r']

def blockLine (cs : List Char) : BlockLine :=
  ⟨(cs.takeWhile (· = ' ')).length, cs.dropWhile (· = ' ')⟩

/-- cuts a text at each line feed -/
def cutLines : List Char → List (List Char)
  | [] => [[]]
  | c :: rest =>
    if c = '\n' then [] :: cutLines rest
    else
      match cutLines rest with
      | [] => [[c]]
      | l :: ls => (c :: l) :: ls

/-- a line without the indentation that all lines share -/
def BlockLine.text (trim : Nat) (l : BlockLine) : List Char :=
  List.replicate (l.spaces - trim) ' ' ++ l.content

/-- the lines of a folded scalar; `sep` is what stands between the lines so far and the next one -/
def foldLines (trim : Nat) : (sep : List Char) → (deeper : Bool) → List BlockLine → List Char × List Char
  | sep, _, [] => ([], sep)
  | sep, deeper, l :: rest =>
    if trim < l.spaces || l.content.head? = some '\t' then
      let before := if sep = [' '] then ['\n'] else if !deeper && sep = ['\n'] then ['\n', '\n'] else sep
      let (text, last) := foldLines trim ['\n'] true rest
      (before ++ l.text trim ++ text, last)
    else if l.content = [] then
      if sep = ['\n'] then
        let (text, last) := foldLines trim sep deeper rest
        ('\n' :: text, last)
      else foldLines trim ['\n'] deeper rest
    else
      let (text, last) := foldLines trim [' '] false rest
      (sep ++ l.content ++ text, last)

/-- the lines of a literal scalar, each after the first on a new line -/
def literalLines (trim : Nat) : List BlockLine → List Char
  | [] => []
  | [l] => l.text trim
  | l :: rest => l.text trim ++ '\n' :: literalLines trim rest

/-- the text of a block scalar that stands in a collection with an indentation of `outer` -/
def blockText (header body : List Char) (outer : Nat) (atRoot : Bool) : Except Fault (List Char) := do
  let h ← readHeader { folded := header.head? = some '>' } (header.drop 1)
  let lines := if body = [] then [] else (cutLines body).map blockLine
  let contentCount := (lines.reverse.dropWhile BlockLine.isEmpty).length
  if contentCount = 0 then
    return if h.chomp = some '+' && !lines.isEmpty then List.replicate (max 1 (lines.length - 1)) '\n' else []
  let lead := lines.takeWhile BlockLine.isEmpty
  let least := outer + h.indent
  let leadTrim := if h.indent = 0 then lead.foldl (fun n l => max n l.spaces) least else least
  let first := ((lines.drop lead.length).head?.map BlockLine.spaces).getD 0
  if first < leadTrim then throw .blockIndent
  let trim := if h.indent = 0 then first else leadTrim
  if trim = 0 && !atRoot then throw .blockIndent
  let deepBlanks := ((lines.drop contentCount).reverse.dropWhile fun l => l.spaces ≤ trim).length
  let contentEnd := contentCount + deepBlanks
  let content := (lines.take contentEnd).drop lead.length
  let content := content.map fun l =>
    if l.content.getLast? = some '\r' then { l with content := l.content.dropLast } else l
  if content.any fun l => l.content ≠ [] && l.spaces < trim then throw .blockIndent
  let start := lead.flatMap fun l => List.replicate (l.spaces - trim) ' ' ++ ['\n']
  let text := start ++ if h.folded then (foldLines trim [] false content).1 else literalLines trim content
  match h.chomp with
  | some '-' => return text
  | some _ =>
    let kept := text ++ (lines.drop contentEnd).flatMap fun l => '\n' :: List.replicate (l.spaces - trim) ' '
    return if kept.getLast? = some '\n' then kept else kept ++ ['\n']
  | none => return text ++ ['\n']

/-! ## What a plain scalar stands for -/

def isNullText (s : String) : Bool :=
  s ∈ ["", "~", "null", "Null", "NULL"]

def readBool? (s : String) : Option Value :=
  if s ∈ ["true", "True", "TRUE"] then some (.bool true)
  else if s ∈ ["false", "False", "FALSE"] then some (.bool false)
  else none

/-- a whole number: octal, decimal or hexadecimal -/
def readInt? (cs : List Char) : Option Value :=
  match cs with
  | '0' :: 'o' :: ds =>
    if ds ≠ [] && ds.all (fun c => '0' ≤ c && c ≤ '7') then
      some (.number (.ofRatio false (ds.foldl (fun n c => n * 8 + digitValue c) 0) 1))
    else none
  | '0' :: 'x' :: ds =>
    if ds ≠ [] && ds.all isHexDigit then some (.number (.ofRatio false (hexNumber ds) 1)) else none
  | _ =>
    match Numeral.cutSign cs with
    | (sign, ds) =>
      if ds ≠ [] && ds.all Char.isDigit then some (.number (.ofRatio (sign = some '-') (ofDigits ds) 1)) else none

/-- a number with a point or an exponent, or one of the words for what is no finite number -/
def readFloat? (cs : List Char) : Option Value :=
  let (sign, unsigned) := Numeral.cutSign cs
  if String.ofList unsigned ∈ [".inf", ".Inf", ".INF"] then some (.number (.infinite (sign = some '-')))
  else if String.ofList cs ∈ [".nan", ".NaN", ".NAN"] then some (.number .undefined)
  else
    match Numeral.ofText? cs with
    | some n =>
      if n.fraction.isSome || n.exponent.isSome then some (.number n.number) else none
    | none => none

/-- the value that a plain text stands for -/
def plainValue (cs : List Char) : Value :=
  let s := String.ofList cs
  if isNullText s then .null
  else (((readBool? s).orElse fun _ => readInt? cs).orElse fun _ => readFloat? cs).getD (.string s)

/-- the value of a text that a tag gives a type to; a text that is not of that type is taken as it is -/
def taggedValue (tag : String) (cs : List Char) : Value :=
  let s := String.ofList cs
  if tag = "tag:yaml.org,2002:null" && isNullText s then .null
  else if tag = "tag:yaml.org,2002:bool" then (readBool? s).getD (.string s)
  else if tag = "tag:yaml.org,2002:int" then (readInt? cs).getD (.string s)
  else if tag = "tag:yaml.org,2002:float" then (readFloat? cs).getD (.string s)
  else .string s

end ChangeImpact.Yaml
