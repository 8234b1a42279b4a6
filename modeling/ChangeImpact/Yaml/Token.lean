/-
The tokens of a YAML text.

A text is cut into tokens from its beginning to its end, and no character is lost: blank space, line
ends and comments are tokens too. What a character means depends on where it stands, so the scan is
in one of three modes: between documents, inside a document, and inside a flow collection. It also
knows how far a line has to be indented to go on with the text before it (`Scan.least`).
-/
import ChangeImpact.Yaml.Fault

namespace ChangeImpact.Yaml

inductive TokenKind where
  | byteOrderMark
  /-- the place where a document begins; it has no characters -/
  | contentStart
  | documentStart
  | documentEnd
  | newline
  | space
  | comment
  | directive
  | dash
  | question
  | colon
  | comma
  | openBrace
  | closeBrace
  | openBracket
  | closeBracket
  | alias
  | anchor
  | tag
  | single
  | double
  | blockHeader
  /-- a plain scalar, or what follows the header of a block scalar -/
  | text
  deriving DecidableEq, Repr

structure Token where
  kind : TokenKind
  text : List Char
  /-- where the token begins, in UTF-16 units -/
  offset : Nat
  /-- how far the line was indented up to this token -/
  indent : Nat
  deriving Repr

/-! ## Characters -/

def isGap (c : Char) : Bool :=
  c = ' ' || c = '\n' || c = '\r' || c = '\t'

/-- nothing or blank space comes next -/
def atGap : List Char → Bool
  | [] => true
  | c :: _ => isGap c

def isSpaceOrTab (c : Char) : Bool :=
  c = ' ' || c = '\t'

def isFlowIndicator (c : Char) : Bool :=
  c = ',' || c = '[' || c = ']' || c = '\x7b' || c = '\x7d'

def atFlowIndicator : List Char → Bool
  | [] => false
  | c :: _ => isFlowIndicator c

def isHexDigit (c : Char) : Bool :=
  c.isDigit || ('a' ≤ c && c ≤ 'f') || ('A' ≤ c && c ≤ 'F')

def isTagChar (c : Char) : Bool :=
  c.isAlphanum || "-#;/?:@&=+$_.!~*'()".toList.contains c

/-- the characters of a name that an anchor gives or an alias uses, with the character in front -/
def nameLength (cs : List Char) : Nat :=
  (cs.takeWhile fun c => !(isGap c || isFlowIndicator c)).length

/-- the characters of a tag after its exclamation mark -/
def tagTailLength : List Char → Nat
  | '%' :: a :: b :: rest => if isHexDigit a && isHexDigit b then tagTailLength rest + 3 else 0
  | c :: rest => if isTagChar c then tagTailLength rest + 1 else 0
  | [] => 0

/-- the characters of a tag -/
def tagLength : List Char → Nat
  | '!' :: '<' :: rest =>
    let inside := rest.takeWhile fun c => !(isGap c || c = '>')
    inside.length + 2 + (if (rest.drop inside.length).head? = some '>' then 1 else 0)
  | '!' :: rest => tagTailLength rest + 1
  | _ => 0

def unitCount (cs : List Char) : Nat :=
  cs.foldl (fun n c => n + if c.toNat < 0x10000 then 1 else 2) 0

/-- what is left of the line, without the line end -/
def lineOf : List Char → List Char
  | [] => []
  | '\n' :: _ => []
  | '\r' :: '\n' :: _ => []
  | c :: rest => c :: lineOf rest

/-- three dashes or three dots that stand alone -/
def marker? (cs : List Char) : Option TokenKind :=
  if !atGap (cs.drop 3) then none
  else if cs.take 3 = ['-', '-', '-'] then some .documentStart
  else if cs.take 3 = ['.', '.', '.'] then some .documentEnd
  else none

/-- how many characters of indentation a line has, if it is one that goes on with a text that needs so many -/
def continued? (least : Nat) (cs : List Char) : Option Nat :=
  if least = 0 then if (marker? cs).isSome then none else some 0
  else
    let indent := (cs.takeWhile (· = ' ')).length
    match cs.drop indent with
    | '\r' :: '\n' :: _ => some (indent + 1)
    | '\n' :: _ => some indent
    | _ => if least ≤ indent then some indent else none

/-! ## Lengths of scalars -/

/-- how many characters belong to a plain scalar; `kept` of the `seen` characters end with one that is
not blank -/
def plainLength (inFlow : Bool) (least : Nat) : Nat → (seen kept : Nat) → List Char → Nat
  | 0, _, kept, _ => kept
  | _, _, kept, [] => kept
  | fuel + 1, seen, kept, c :: rest =>
    let stops (after : List Char) := after.head? = some '#' || (inFlow && atFlowIndicator after)
    let nextLine (seen kept : Nat) (after : List Char) : Nat :=
      match continued? least after with
      | none => kept
      | some n => plainLength inFlow least fuel (seen + (n - 1)) kept (after.drop (n - 1))
    if c = ':' then
      if atGap rest || (inFlow && atFlowIndicator rest) then kept
      else plainLength inFlow least fuel (seen + 1) (seen + 1) rest
    else if c = '\n' then
      if stops rest then kept else nextLine (seen + 1) kept rest
    else if c = '\r' then
      match rest with
      | '\n' :: after => if stops after then kept else nextLine (seen + 2) kept after
      | _ => if stops rest then seen + 1 else plainLength inFlow least fuel (seen + 1) (seen + 1) rest
    else if isGap c then
      if stops rest then kept else plainLength inFlow least fuel (seen + 1) kept rest
    else if inFlow && isFlowIndicator c then kept
    else plainLength inFlow least fuel (seen + 1) (seen + 1) rest

/-- the length up to a line end that the text cannot go on after, the earlier one if there are two -/
def brokenAt (least : Nat) (broken : Option Nat) (afterReturn : Bool) (seen : Nat) (after : List Char) : Option Nat :=
  broken.orElse fun _ => if (continued? least after).isSome then none else some (if afterReturn then seen - 1 else seen)

/-- how many characters belong to a quoted scalar whose opening quote was seen: all when there is no
closing quote, and those before the first line that is not indented enough otherwise -/
def quotedLength (quote : Char) (least : Nat) : (broken : Option Nat) → (afterReturn : Bool) → (seen : Nat) → List Char → Nat
  | _, _, seen, [] => seen
  | broken, _, seen, '\\' :: c :: rest =>
    if quote = '"' then
      quotedLength quote least (if c = '\n' then brokenAt least broken false (seen + 1) rest else broken) (c = '\r') (seen + 2) rest
    else if c = '\'' then
      match rest with
      | '\'' :: more => quotedLength quote least broken false (seen + 3) more
      | _ => broken.getD (seen + 2)
    else
      quotedLength quote least (if c = '\n' then brokenAt least broken false (seen + 1) rest else broken) (c = '\r') (seen + 2) rest
  | broken, afterReturn, seen, c :: rest =>
    if c = quote then
      match rest with
      | '\'' :: more =>
        if quote = '\'' then quotedLength quote least broken false (seen + 2) more else broken.getD (seen + 1)
      | _ => broken.getD (seen + 1)
    else
      quotedLength quote least (if c = '\n' then brokenAt least broken afterReturn seen rest else broken) (c = '\r') (seen + 1) rest

/-- the blank lines in front of a text: their length, and the indentation of the line after them -/
def leadingBlank : (lines seen indent : Nat) → List Char → Nat × Nat
  | lines, seen, indent, ' ' :: rest => leadingBlank lines (seen + 1) (indent + 1) rest
  | _, seen, _, '\n' :: rest => leadingBlank (seen + 1) (seen + 1) 0 rest
  | _, seen, _, '\r' :: '\n' :: rest => leadingBlank (seen + 2) (seen + 2) 0 rest
  | lines, _, indent, _ => (lines, indent)

/-- cuts a text after each line end -/
def linesWithEnds : List Char → List (List Char)
  | [] => []
  | c :: rest =>
    if c = '\n' then ['\n'] :: linesWithEnds rest
    else
      match linesWithEnds rest with
      | [] => [[c]]
      | l :: ls => (c :: l) :: ls

/-- the lines at the beginning that are indented enough -/
def linesFrom (least : Nat) : List (List Char) → List Char → List (List Char)
  | [], _ => []
  | l :: ls, cs => if (continued? least cs).isSome then l :: linesFrom least ls (cs.drop l.length) else []

/-- the line has nothing but at most so many spaces -/
def isBlankLine (indent : Nat) (line : List Char) : Bool :=
  let spaces := (line.takeWhile (· = ' ')).length
  let ending := line.drop spaces
  spaces ≤ indent && (ending = [] || ending = ['\n'] || ending = ['\r', '\n'] || ending = ['\r'])

/-- the lines, the last first, without the blank ones at the end -/
def dropBlankEnd (indent : Nat) : List (List Char) → List (List Char)
  | last :: previous :: rest =>
    if isBlankLine indent last then dropBlankEnd indent (previous :: rest) else last :: previous :: rest
  | ls => ls

/-- what a block scalar's header says about its indentation, and whether it keeps blank lines at the end -/
def headerSettings : List Char → Option Nat × Bool
  | [] => (none, false)
  | c :: rest =>
    let (indent, keep) := headerSettings rest
    if c = '+' then (indent, true)
    else if c.isDigit && c ≠ '0' then (indent.orElse fun _ => some (c.toNat - '0'.toNat), keep)
    else if c = '-' then (indent, keep)
    else (none, false)

/-! ## The scan -/

inductive Mode where
  | stream
  | document
  | flow
  deriving DecidableEq

structure Scan where
  rest : List Char
  offset : Nat := 0
  /-- the indentation a line needs to go on with the text before it -/
  least : Nat := 0
  /-- the indentation of what begins next on this line -/
  column : Nat := 0
  /-- how many flow collections are open -/
  depth : Nat := 0
  /-- a key that needs no space after its colon has just ended -/
  keyEnded : Bool := false
  /-- the tokens so far, the latest first -/
  found : List Token := []

namespace Scan

/-- a token of so many characters, also when there are none -/
def take (s : Scan) (kind : TokenKind) (n : Nat) : Scan :=
  let text := s.rest.take n
  { s with rest := s.rest.drop n, offset := s.offset + unitCount text, found := ⟨kind, text, s.offset, 0⟩ :: s.found }

/-- a token of so many characters, unless there are none -/
def emit (s : Scan) (kind : TokenKind) (n : Nat) : Scan :=
  if n = 0 then s else s.take kind n

def spaces (s : Scan) : Scan :=
  s.emit .space (s.rest.takeWhile (· = ' ')).length

def blanks (s : Scan) : Scan :=
  s.emit .space (s.rest.takeWhile isSpaceOrTab).length

def newline (s : Scan) : Scan :=
  match s.rest with
  | '\n' :: _ => s.emit .newline 1
  | '\r' :: '\n' :: _ => s.emit .newline 2
  | _ => s

/-- the rest of the line as a comment -/
def comment (s : Scan) : Scan :=
  s.emit .comment (lineOf s.rest).length

def indicatorKind? (c : Char) : Option TokenKind :=
  if c = '-' then some .dash else if c = '?' then some .question else if c = ':' then some .colon else none

/-- the indicators at the beginning of a line, which count as indentation -/
def leadingIndicators : Nat → Scan → Scan
  | 0, s => s
  | fuel + 1, s =>
    match s.rest with
    | c :: after =>
      match indicatorKind? c with
      | some kind =>
        if atGap after then
          let width := 1 + (after.takeWhile isSpaceOrTab).length
          leadingIndicators fuel
            { (s.emit kind 1).blanks with least := s.column + 1, column := s.column + width }
        else s
      | none => s
    | [] => s

/-- the beginning of a line: a marker between documents, or indentation -/
def lineStart (s : Scan) : Mode × Scan :=
  match marker? s.rest with
  | some kind =>
    (if kind = .documentStart then .document else .stream, { s.emit kind 3 with column := 0, least := 0 })
  | none =>
    let t := s.spaces
    let column := (s.rest.takeWhile (· = ' ')).length
    let least := if column < t.least && !atGap (t.rest.drop 1) then column else t.least
    (.document, leadingIndicators (lineOf t.rest).length { t with column, least })

/-- properties and indicators in front of a node -/
def indicators : Nat → Scan → Scan
  | 0, s => s
  | fuel + 1, s =>
    match s.rest with
    | '!' :: _ => indicators fuel (s.emit .tag (tagLength s.rest)).blanks
    | '&' :: _ => indicators fuel (s.emit .anchor (nameLength s.rest)).blanks
    | c :: after =>
      match indicatorKind? c with
      | some kind =>
        if atGap after || (s.depth ≠ 0 && atFlowIndicator after) then
          let t := if s.depth = 0 then { s with least := s.column + 1 } else { s with keyEnded := false }
          indicators fuel (t.emit kind 1).blanks
        else s
      | none => s
    | [] => s

def inside (s : Scan) : Mode :=
  if s.depth = 0 then .document else .flow

def plain (s : Scan) : Mode × Scan :=
  let n := plainLength (s.depth ≠ 0) s.least (s.rest.length + 1) 0 0 s.rest
  (s.inside, s.take .text n)

def quoted (s : Scan) (quote : Char) : Mode × Scan :=
  let n := quotedLength quote s.least none false 1 (s.rest.drop 1)
  (s.inside, s.emit (if quote = '"' then .double else .single) n)

/-- a block scalar after its header and the line end -/
def blockScalar (s : Scan) (explicit : Option Nat) (keep : Bool) : Mode × Scan :=
  let (blank, indent) := leadingBlank 0 0 0 s.rest
  let s :=
    if indent < s.least then s
    else
      match explicit with
      | none => { s with least := indent }
      | some n => { s with least := n - 1 + if s.least = 0 then 1 else s.least }
  let after := s.rest.drop blank
  let content := if indent < s.least then [] else linesFrom s.least (linesWithEnds after) after
  let lines := linesWithEnds (s.rest.take blank) ++ content
  let length := lines.flatten.length
  let rest := s.rest.drop length
  let tabbed := (rest.dropWhile (· = ' ')).head? = some '\t'
  let n :=
    if tabbed then length + (rest.takeWhile isGap).length
    else if keep then length
    else (dropBlankEnd indent lines.reverse).flatten.length
  (s.take .text n).lineStart

/-- the length of a directive without a comment and the blank space around it -/
def directiveLength (line : List Char) : Nat :=
  let rec beforeComment (previous : Char) : List Char → List Char
    | [] => []
    | c :: rest => if c = '#' && isSpaceOrTab previous then [] else c :: beforeComment c rest
  ((beforeComment '%' line).reverse.dropWhile isSpaceOrTab).length

/-- between documents -/
def streamStep (s : Scan) : Mode × Scan :=
  let s := if s.rest.head? = some (Char.ofNat 0xFEFF) then s.emit .byteOrderMark 1 else s
  match s.rest.dropWhile isSpaceOrTab with
  | [] => (.stream, s.blanks)
  | '#' :: _ => (.stream, s.blanks.comment.newline)
  | '\n' :: _ => (.stream, s.blanks.newline)
  | '\r' :: '\n' :: _ => (.stream, s.blanks.newline)
  | c :: _ =>
    if c = '%' && s.rest.head? = some '%' then
      (.stream, (s.emit .directive (directiveLength (lineOf s.rest))).blanks.comment.newline)
    else (s.take .contentStart 0).lineStart

/-- inside a document -/
def documentStep (s : Scan) : Except Fault (Mode × Scan) :=
  let s := s.blanks
  let s := indicators (lineOf s.rest).length s
  match lineOf s.rest with
  | [] => .ok s.newline.lineStart
  | c :: _ =>
    if c = '#' then .ok s.comment.newline.lineStart
    else if c = '\x7b' then .ok (.flow, { s.emit .openBrace 1 with keyEnded := false, depth := 1 })
    else if c = '[' then .ok (.flow, { s.emit .openBracket 1 with keyEnded := false, depth := 1 })
    else if c = '\x7d' then .ok (.document, s.emit .closeBrace 1)
    else if c = ']' then .ok (.document, s.emit .closeBracket 1)
    else if c = '*' then .ok (.document, s.emit .alias (nameLength s.rest))
    else if c = '"' || c = '\'' then .ok (s.quoted c)
    else if c = '|' || c = '>' then
      let (explicit, keep) := headerSettings (s.rest.drop 1)
      let header := (s.rest.takeWhile fun c => !(isGap c || c = '#')).length
      let t := (s.emit .blockHeader header).blanks
      match lineOf t.rest with
      | [] => .ok (t.newline.blockScalar explicit keep)
      | d :: _ => if d = '#' then .ok (t.comment.newline.blockScalar explicit keep) else .error .blockHeader
    else .ok s.plain

/-- line ends and blank space inside a flow collection, and the indentation of the last line -/
def flowSpace : Nat → Option Nat → Scan → Option Nat × Scan
  | 0, indent, s => (indent, s)
  | fuel + 1, indent, s =>
    let t := s.newline
    if t.offset ≠ s.offset then
      let column := (t.rest.takeWhile (· = ' ')).length
      flowSpace fuel (some column) { t.spaces.blanks with column }
    else
      let u := s.blanks
      if u.offset ≠ s.offset then flowSpace fuel indent u else (indent, s)

/-- the line ends the flow collection it stands in, as it is not indented enough or begins with a marker -/
def breaksFlow (s : Scan) (indent : Option Nat) : Bool :=
  match indent with
  | none => false
  | some n =>
    let first := (lineOf s.rest).head?
    let closes := n + 1 = s.least && s.depth = 1 && (first = some ']' || first = some '\x7d')
    ((n < s.least && first ≠ some '#') || (n = 0 && (marker? s.rest).isSome)) && !closes

def commas : Nat → Scan → Scan
  | 0, s => s
  | fuel + 1, s =>
    match s.rest with
    | ',' :: _ => commas fuel { (s.emit .comma 1).blanks with keyEnded := false }
    | _ => s

/-- inside a flow collection -/
def flowStep (s : Scan) : Except Fault (Mode × Scan) :=
  let (indent, s) := flowSpace (s.rest.length + 1) none s
  if s.breaksFlow indent then .error .unclosedFlow
  else
    let s := commas (lineOf s.rest).length s
    let s := indicators (lineOf s.rest).length s
    match lineOf s.rest with
    | [] => .ok (.flow, s)
    | c :: _ =>
      if c = '#' then .ok (.flow, s.comment)
      else if c = '\x7b' then .ok (.flow, { s.emit .openBrace 1 with keyEnded := false, depth := s.depth + 1 })
      else if c = '[' then .ok (.flow, { s.emit .openBracket 1 with keyEnded := false, depth := s.depth + 1 })
      else if c = '\x7d' || c = ']' then
        let t := s.emit (if c = ']' then .closeBracket else .closeBrace) 1
        let t := { t with keyEnded := true, depth := s.depth - 1 }
        .ok (t.inside, t)
      else if c = '*' then .ok (.flow, s.emit .alias (nameLength s.rest))
      else if c = '"' || c = '\'' then .ok ({ s with keyEnded := true }.quoted c)
      else if c = ':' && (s.keyEnded || atGap (s.rest.drop 1) || (s.rest.drop 1).head? = some ',') then
        .ok (.flow, ({ s with keyEnded := false }.emit .colon 1).blanks)
      else .ok { s with keyEnded := false }.plain

def step (mode : Mode) (s : Scan) : Except Fault (Mode × Scan) :=
  match mode with
  | .stream => .ok s.streamStep
  | .document => s.documentStep
  | .flow => s.flowStep

/-- the scan up to the end of the text -/
def run : Nat → Mode → Scan → Except Fault Scan
  | 0, _, s => .ok s
  | fuel + 1, mode, s =>
    if s.rest = [] then .ok s
    else
      match step mode s with
      | .ok (mode, s) => run fuel mode s
      | .error f => .error f

end Scan

/-- the tokens of a text -/
def Token.ofText (cs : List Char) : Except Fault (List Token) := do
  let s ← Scan.run (2 * cs.length + 4) .stream { rest := cs }
  return s.found.reverse

end ChangeImpact.Yaml
