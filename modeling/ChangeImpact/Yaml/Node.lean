/-
The nodes of a YAML document.

`compose` turns an outline into a node and refuses every outline that has something out of place:
properties in the wrong order, indentation that does not fit, keys that are not unique or not on one
line, missing commas and the like. Scalars get their values; aliases stay names.
-/
import ChangeImpact.Yaml.Outline
import ChangeImpact.Yaml.Scalar

namespace ChangeImpact.Yaml

inductive Node where
  | scalar (anchor : Option String) (plain : Bool) (value : Value)
  | list (anchor : Option String) (items : List Node)
  | map (anchor : Option String) (pairs : List (Node × Option Node))
  | alias (name : String)

/-- what a tag's handle stands for -/
abbrev Handles := List (String × String)

/-! ## Properties -/

/-- what comes after some properties -/
inductive Next where
  | nothing
  | token (t : Token)
  | node (o : Outline)

/-- the properties of a node or an entry, read off the tokens in front of it -/
structure Props where
  comma : Bool := false
  found : Option Token := none
  hasNewline : Bool := false
  anchor : Option Token := none
  tag : Option Token := none
  newlineAfterProp : Option Token := none
  first : Option Nat := none
  /-- the state of the reading: at the beginning of a line, after blank space, after a property, after a tab -/
  atNewline : Bool := false
  hasSpace : Bool := false
  needsSpace : Bool := false
  tab : Option Token := none

namespace Props

/-- the next token when nothing stands out of place -/
def take (inFlow keepsTabs : Bool) (indicator : TokenKind) (p : Props) (t : Token) : Except Fault Props := do
  if p.needsSpace && t.kind ≠ .space && t.kind ≠ .newline && t.kind ≠ .comma then throw .missingSpace
  if p.tab.isSome && p.atNewline && t.kind ≠ .comment && t.kind ≠ .newline then throw .tabIndent
  let p := { p with needsSpace := false, tab := none }
  if t.kind = .space then
    return { p with tab := if !inFlow && !keepsTabs && t.text.contains '\t' then some t else none, hasSpace := true }
  else if t.kind = .comment then
    if p.hasSpace then return { p with atNewline := false } else throw .missingSpace
  else if t.kind = .newline then
    return { p with
      atNewline := true, hasNewline := true, hasSpace := true
      newlineAfterProp := if p.anchor.isSome || p.tag.isSome then some t else p.newlineAfterProp }
  else if t.kind = .anchor then
    if p.anchor.isSome then throw .repeatedProperty
    return { p with
      anchor := some t, first := p.first.orElse fun _ => some t.offset
      atNewline := false, hasSpace := false, needsSpace := true }
  else if t.kind = .tag then
    if p.tag.isSome then throw .repeatedProperty
    return { p with
      tag := some t, first := p.first.orElse fun _ => some t.offset
      atNewline := false, hasSpace := false, needsSpace := true }
  else if t.kind = indicator then
    if p.anchor.isSome || p.tag.isSome then throw .propertyOrder
    if p.found.isSome then throw .strayToken
    return { p with found := some t, atNewline := indicator = .dash || indicator = .question, hasSpace := false }
  else if t.kind = .comma && inFlow then
    if p.comma then throw .strayComma
    return { p with comma := true, atNewline := false, hasSpace := false }
  else throw .strayToken

/-- the next thing may follow a property directly -/
def isSeparate : Next → Bool
  | .nothing => true
  | .token t => t.kind = .space || t.kind = .newline || t.kind = .comma
  | .node (.scalar t _) => t.kind = .text && t.text.isEmpty
  | .node _ => false

def isBlockNext : Next → Bool
  | .node (.map ..) => true
  | .node (.seq ..) => true
  | _ => false

/-- the properties that some tokens give -/
def read (inFlow : Bool) (indicator : TokenKind) (next : Next) (outer : Nat) (onNewline : Bool) (ts : List Token) :
    Except Fault Props := do
  let keepsTabs : Bool := indicator = .documentStart &&
    match next with
    | .node (.flow ..) => true
    | _ => false
  let p ← ts.foldlM (take inFlow keepsTabs indicator) { atNewline := onNewline, hasSpace := onNewline }
  if p.needsSpace && !isSeparate next then throw .missingSpace
  match p.tab with
  | some tab => if (p.atNewline && tab.indent ≤ outer) || isBlockNext next then throw .tabIndent
  | none => pure ()
  return p

def hasProperty (p : Props) : Bool :=
  p.anchor.isSome || p.tag.isSome

end Props

/-- nothing but blank space, line ends and comments comes after a node, a comment not directly -/
def checkTail (strict hasSpace : Bool) : List Token → Except Fault Unit
  | [] => .ok ()
  | t :: rest =>
    match t.kind with
    | .space | .newline => checkTail strict true rest
    | .comment => if strict && !hasSpace then .error .missingSpace else checkTail strict hasSpace rest
    | _ => .error .strayToken

/-! ## Tags and anchors -/

/-- the text of a percent escape, as far as it is ASCII -/
def decodePercent : List Char → List Char
  | '%' :: a :: b :: rest =>
    if isHexDigit a && isHexDigit b && hexNumber [a, b] < 0x80 then Char.ofNat (hexNumber [a, b]) :: decodePercent rest
    else '%' :: a :: b :: decodePercent rest
  | c :: rest => c :: decodePercent rest
  | [] => []

/-- the name of a tag; a handle has to be one that is known -/
def tagName (handles : Handles) (source : List Char) : Except Fault String :=
  match source with
  | ['!'] => .ok "!"
  | '!' :: '<' :: rest =>
    if rest.getLast? = some '>' && rest.dropLast ≠ ['!'] && rest.dropLast ≠ ['!', '!'] then .ok (String.ofList rest.dropLast)
    else .error .badTag
  | _ =>
    let suffix := (source.reverse.takeWhile (· ≠ '!')).reverse
    let handle := String.ofList (source.take (source.length - suffix.length))
    if suffix.isEmpty then .error .badTag
    else
      match handles.lookup handle with
      | some start => .ok (start ++ String.ofList (decodePercent suffix))
      | none => if handle = "!" then .ok (String.ofList source) else .error .badTag

/-- the name that an anchor gives, or an alias uses -/
def anchorName (t : Token) : Except Fault String :=
  if t.text.length ≤ 1 then .error .emptyAlias else .ok (String.ofList (t.text.drop 1))

def anchorOf (p : Props) : Except Fault (Option String) :=
  match p.anchor with
  | none => .ok none
  | some t => do return some (← anchorName t)

/-- a scalar with its text; without a tag only a plain one can be anything but a string -/
def scalarNode (handles : Handles) (p : Props) (plain : Bool) (text : List Char) : Except Fault Node := do
  let anchor ← anchorOf p
  match p.tag with
  | some t => return .scalar anchor plain (taggedValue (← tagName handles t.text) text)
  | none => return .scalar anchor plain (if plain then plainValue text else .string (String.ofList text))

/-- a node of which only the properties are written -/
def emptyNode (handles : Handles) (p : Props) : Except Fault Node :=
  scalarNode handles p true []

/-! ## Keys -/

mutual

/-- the key is written on more than one line -/
def Outline.hasNewline : Outline → Bool
  | .scalar token tail => token.text.contains '\n' || holds (tail.getD []) .newline
  | .flow _ _ entries _ => Outline.anyNewline entries
  | _ => true

def Outline.anyNewline : List (Entry Outline) → Bool
  | [] => false
  | e :: rest =>
    (match e with
      | ⟨lead, _, key, sep, value⟩ =>
        holds lead .newline || holds (sep.getD []) .newline ||
          (match key with
            | some k => k.hasNewline
            | none => false) ||
          (match value with
            | some v => v.hasNewline
            | none => false)) ||
    Outline.anyNewline rest

end

/-- two scalar keys that are the same, a number that is none not being the same as itself -/
def sameKey : Node → Node → Bool
  | .scalar _ _ .null, .scalar _ _ .null => true
  | .scalar _ _ (.bool a), .scalar _ _ (.bool b) => a = b
  | .scalar _ _ (.number a), .scalar _ _ (.number b) => a = b && a ≠ .undefined
  | .scalar _ _ (.string a), .scalar _ _ (.string b) => a = b
  | _, _ => false

/-- the longest that an implicit key may be, up to its colon -/
def longestKey : Nat := 1024

/-- where an implicit key begins, if that is known -/
def keyStart (p : Props) (key : Option Outline) : Option Nat :=
  p.first.orElse fun _ =>
    match key with
    | some (.scalar t _) => some t.offset
    | some (.flow _ opening _ _) => some opening.offset
    | _ => none

def isTooLong (p : Props) (key : Option Outline) (colon : Token) : Bool :=
  match keyStart p key with
  | some start => start + longestKey < colon.offset
  | none => false

/-- the first thing of a key or of what follows it -/
def nextOf (key : Option Outline) (sep : Option (List Token)) : Next :=
  match key with
  | some k => .node k
  | none =>
    match sep.bind List.head? with
    | some t => .token t
    | none => .nothing

def nextValue : Option Outline → Next
  | some v => .node v
  | none => .nothing

def Outline.isBlock : Outline → Bool
  | .map .. => true
  | .seq .. => true
  | _ => false

/-- a block sequence's own properties stand on a line before it -/
def checkSeqProps (p : Props) : Except Fault Unit :=
  let last := max ((p.anchor.map Token.offset).getD 0) ((p.tag.map Token.offset).getD 0)
  if p.hasProperty && (p.newlineAfterProp.all fun t => t.offset < last) then .error .missingSpace else .ok ()

/-- the name of a collection's tag is checked and does not count otherwise -/
def checkTag (handles : Handles) (p : Props) : Except Fault Unit :=
  match p.tag with
  | some t => do
    let _ ← tagName handles t.text
    return ()
  | none => .ok ()

/-- a comment in a block scalar's header has a space before it -/
def checkHeader : (hasSpace : Bool) → List Token → Except Fault Unit
  | _, [] => .ok ()
  | hasSpace, t :: rest =>
    if t.kind = .comment && !hasSpace then .error .missingSpace else checkHeader (hasSpace || t.kind = .space) rest

/-- the text of a scalar by the way it is written -/
def scalarText (t : Token) : Except Fault (List Char) :=
  match t.kind with
  | .single => singleText t.text
  | .double => doubleText t.text
  | _ => plainText t.text

/-! ## Collections -/

/-- the end of a flow collection: its own closing bracket, and after it nothing out of place -/
def checkClosing (opening : Token) (tail : List Token) : Except Fault Unit :=
  match tail with
  | t :: rest =>
    if t.kind = (if opening.kind = .openBrace then .closeBrace else .closeBracket) then checkTail true false rest
    else .error .unclosedFlow
  | [] => .error .unclosedFlow

/-- how the properties in front of an entry of a flow collection fit its place -/
def checkItemProps (p : Props) (isFirst isLast isEmpty : Bool) : Except Fault Unit :=
  if isFirst && p.comma then .error .strayComma
  else if isEmpty then if isLast then .ok () else .error .strayComma
  else if isFirst || p.comma then .ok ()
  else .error .missingComma

mutual

/-- the node of an outline with the properties in front of it -/
def compose (handles : Handles) (atRoot : Bool) (p : Props) : Outline → Except Fault Node
  | .scalar token tail => do
    if token.kind = .alias then
      let name ← anchorName token
      checkTail true false (tail.getD [])
      if p.hasProperty then throw .aliasProperties
      return .alias name
    else
      let text ← scalarText token
      checkTail true false (tail.getD [])
      scalarNode handles p (token.kind = .text) text
  | .block indent header body => do
    checkHeader false (header.drop 1)
    let text ← blockText ((header.head?.map Token.text).getD []) body indent atRoot
    scalarNode handles p false text
  | .flow indent opening entries tail => do
    checkTag handles p
    let anchor ← anchorOf p
    if opening.kind = .openBrace then
      let pairs ← flowPairs handles indent true [] entries
      checkClosing opening tail
      return .map anchor pairs
    else
      let items ← flowItems handles indent true entries
      checkClosing opening tail
      return .list anchor items
  | .map indent entries => do
    checkTag handles p
    let anchor ← anchorOf p
    return .map anchor (← blockPairs handles indent false [] entries)
  | .seq indent entries => do
    checkSeqProps p
    checkTag handles p
    let anchor ← anchorOf p
    return .list anchor (← blockItems handles indent entries)

/-- a node that may be left out -/
def composeOr (handles : Handles) (p : Props) : Option Outline → Except Fault Node
  | some o => compose handles false p o
  | none => emptyNode handles p

/-- the pairs of a block mapping; `ended` is true once an entry had nothing but comments -/
def blockPairs (handles : Handles) (indent : Nat) (ended : Bool) (keys : List Node) :
    List (Entry Outline) → Except Fault (List (Node × Option Node))
  | [] => .ok []
  | ⟨lead, _, key, sep, value⟩ :: rest => do
    let p ← Props.read false .question (nextOf key sep) indent true lead
    match p.found with
    | none =>
      match key with
      | some (.seq ..) => throw .blockKey
      | some (.block ..) => pure ()
      | some k => if k.indent ≠ indent then throw .badIndent
      | none => pure ()
    | some t => if t.indent ≠ indent then throw .badIndent
    if p.found.isNone && !p.hasProperty && sep.isNone then
      blockPairs handles indent true keys rest
    else
      if ended then throw .contentAfterComment
      if p.found.isNone && (p.newlineAfterProp.isSome || key.any Outline.hasNewline) then throw .multilineKey
      let keyNode ← composeOr handles p key
      if keys.any (sameKey keyNode) then throw .repeatedKey
      let onNewline : Bool :=
        match key with
        | none => true
        | some (.block ..) => true
        | _ => false
      let v ← Props.read false .colon (nextValue value) indent onNewline (sep.getD [])
      match v.found with
      | some colon =>
        if p.found.isNone then
          match value with
          | some (.map ..) => if !v.hasNewline then throw .nestedMapping
          | _ => pure ()
          if isTooLong p key colon then throw .longKey
        let valueNode ← composeOr handles v value
        return (keyNode, some valueNode) :: (← blockPairs handles indent false (keyNode :: keys) rest)
      | none =>
        if p.found.isNone then throw .missingColon
        return (keyNode, none) :: (← blockPairs handles indent false (keyNode :: keys) rest)

/-- the items of a block sequence -/
def blockItems (handles : Handles) (indent : Nat) : List (Entry Outline) → Except Fault (List Node)
  | [] => .ok []
  | ⟨lead, _, _, _, value⟩ :: rest => do
    let p ← Props.read false .dash (nextValue value) indent true lead
    if p.found.isNone then
      if p.hasProperty || value.isSome then
        throw (match value with
          | some (.seq ..) => .badIndent
          | _ => .missingDash)
      else blockItems handles indent rest
    else
      let node ← composeOr handles p value
      return node :: (← blockItems handles indent rest)

/-- the pairs of a flow mapping -/
def flowPairs (handles : Handles) (indent : Nat) (isFirst : Bool) (keys : List Node) :
    List (Entry Outline) → Except Fault (List (Node × Option Node))
  | [] => .ok []
  | ⟨lead, _, key, sep, value⟩ :: rest => do
    let p ← Props.read true .question (nextOf key sep) indent false lead
    let isEmpty := p.found.isNone && !p.hasProperty && sep.isNone && value.isNone
    checkItemProps p isFirst rest.isEmpty isEmpty
    if isEmpty then flowPairs handles indent false keys rest
    else
      let keyNode ← composeOr handles p key
      if key.any Outline.isBlock then throw .blockInFlow
      let v ← Props.read true .colon (nextValue value) indent false (sep.getD [])
      if v.found.isNone && value.isSome then throw .missingComma
      let valueNode ←
        match value with
        | some o => do
          if o.isBlock then throw .blockInFlow
          pure (some (← compose handles false v o))
        | none => if v.found.isSome then do pure (some (← emptyNode handles v)) else pure none
      if keys.any (sameKey keyNode) then throw .repeatedKey
      return (keyNode, valueNode) :: (← flowPairs handles indent false (keyNode :: keys) rest)

/-- the items of a flow sequence, of which a pair is a mapping of its own -/
def flowItems (handles : Handles) (indent : Nat) (isFirst : Bool) : List (Entry Outline) → Except Fault (List Node)
  | [] => .ok []
  | ⟨lead, _, key, sep, value⟩ :: rest => do
    let p ← Props.read true .question (nextOf key sep) indent false lead
    let isEmpty := p.found.isNone && !p.hasProperty && sep.isNone && value.isNone
    checkItemProps p isFirst rest.isEmpty isEmpty
    if isEmpty then flowItems handles indent false rest
    else
      if p.found.isNone && key.any Outline.hasNewline then throw .multilineKey
      if sep.isNone && p.found.isNone then
        if value.any Outline.isBlock then throw .blockInFlow
        let node ← composeOr handles p value
        return node :: (← flowItems handles indent false rest)
      else
        let keyNode ← composeOr handles p key
        if key.any Outline.isBlock then throw .blockInFlow
        let v ← Props.read true .colon (nextValue value) indent false (sep.getD [])
        match v.found with
        | some colon =>
          if p.found.isNone then
            if holds ((sep.getD []).takeWhile fun t => t.kind ≠ .colon) .newline then throw .multilineKey
            if isTooLong p key colon then throw .longKey
        | none => if value.isSome then throw .missingComma
        let valueNode ←
          match value with
          | some o => do
            if o.isBlock then throw .blockInFlow
            pure (some (← compose handles false v o))
          | none => if v.found.isSome then do pure (some (← emptyNode handles v)) else pure none
        return .map none [(keyNode, valueNode)] :: (← flowItems handles indent false rest)

end

end ChangeImpact.Yaml
