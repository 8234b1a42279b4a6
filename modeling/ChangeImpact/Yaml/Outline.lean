/-
The outline of a YAML text: which tokens belong to which scalar or collection.

The outline is built token by token. `Frame`s are what is still open, the innermost first; a token
goes to the innermost frame, which takes it, opens a new frame for what begins with it, or is closed
and hands it to the frame around it. What each entry of a collection may hold is not checked here:
an outline keeps all tokens, also those that will turn out to be out of place.
-/
import ChangeImpact.Yaml.Token

namespace ChangeImpact.Yaml

/-- an entry of a collection; `sep` is what stands between the key and the value and is there once a key
or a colon was seen -/
structure Entry (α : Type) where
  lead : List Token := []
  explicitKey : Bool := false
  key : Option α := none
  sep : Option (List Token) := none
  value : Option α := none

inductive Outline where
  /-- a plain or quoted scalar or an alias, with what follows it up to the end of its line -/
  | scalar (token : Token) (tail : Option (List Token))
  | block (indent : Nat) (header : List Token) (body : List Char)
  | flow (indent : Nat) (opening : Token) (entries : List (Entry Outline)) (tail : List Token)
  | map (indent : Nat) (entries : List (Entry Outline))
  | seq (indent : Nat) (entries : List (Entry Outline))

/-- what is open -/
inductive Frame where
  | document (start : List Token) (body : Option Outline) (tail : Option (List Token))
  | documentEnd (tail : List Token)
  | node (o : Outline)

/-- what a text consists of at the outermost level -/
inductive Part where
  | directive (text : List Char)
  | document (start : List Token) (body : Option Outline) (tail : List Token)
  | documentEnd (tail : List Token)

structure Build where
  /-- the line has had nothing but indentation so far -/
  fresh : Bool := true
  indent : Nat := 0
  /-- a key began on this line -/
  onKeyLine : Bool := false
  stack : List Frame := []
  /-- the closed parts, the latest first -/
  parts : List Part := []

/-! ## Token lists -/

def holds (ts : List Token) (kind : TokenKind) : Bool :=
  ts.any fun t => t.kind = kind

/-- only blank space, line ends and comments -/
def isFiller (t : Token) : Bool :=
  t.kind = .space || t.kind = .comment || t.kind = .newline

/-- the tokens before a new key and those that belong to it: all after the last indicator or line end
and the spaces behind it -/
def cutKeyLead (ts : List Token) : List Token × List Token :=
  let opens (t : Token) : Bool :=
    t.kind = .documentStart || t.kind = .question || t.kind = .colon || t.kind = .dash || t.kind = .newline
  let afterLast := (ts.reverse.takeWhile fun t => !opens t).reverse
  let lead := afterLast.dropWhile fun t => t.kind = .space
  (ts.take (ts.length - lead.length), lead)

namespace Outline

def isFlowLike : Outline → Bool
  | scalar .. => true
  | flow .. => true
  | _ => false

def indent : Outline → Nat
  | scalar token _ => token.indent
  | block indent _ _ => indent
  | flow indent _ _ _ => indent
  | map indent _ => indent
  | seq indent _ => indent

/-- what follows a scalar or a flow collection on its line -/
def tail? : Outline → Option (List Token)
  | scalar _ tail => tail
  | flow _ _ _ tail => some tail
  | _ => none

def addTail (o : Outline) (ts : List Token) : Outline :=
  match o with
  | scalar token tail => scalar token (some (tail.getD [] ++ ts))
  | flow indent opening entries tail => flow indent opening entries (tail ++ ts)
  | o => o

end Outline

namespace Entry

abbrev Open := Entry Outline

def updateLast (f : Open → Open) : List Open → List Open
  | [] => []
  | [e] => [f e]
  | e :: rest => e :: updateLast f rest

def addLead (e : Open) (ts : List Token) : Open :=
  { e with lead := e.lead ++ ts }

def addSep (e : Open) (ts : List Token) : Open :=
  { e with sep := some (e.sep.getD [] ++ ts) }

def addToValue (e : Open) (ts : List Token) : Open :=
  { e with value := e.value.map (·.addTail ts) }

/-- what follows the value on its line -/
def valueTail? (e : Open) : Option (List Token) :=
  e.value.bind Outline.tail?

/-- an item of a flow sequence that is no pair has a value and no key -/
def settleItem (e : Open) : Open :=
  match e.sep with
  | some sep =>
    if e.value.isNone && !holds e.lead .question && !holds sep .colon then
      match e.key with
      | some k =>
        if k.isFlowLike then { e with value := some (k.addTail sep), key := none, sep := none }
        else { e with value := some k, key := none, sep := none, lead := e.lead ++ sep }
      | none => { e with sep := none, lead := e.lead ++ sep }
    else e
  | none => e

end Entry

/-- the items of a flow sequence as values, the pairs of a flow mapping as they are -/
def Outline.settled : Outline → Outline
  | .flow indent opening entries tail =>
    .flow indent opening (if opening.kind = .openBracket then entries.map Entry.settleItem else entries) tail
  | o => o

/-- a last entry of fillers that are not indented further than the collection belongs after it -/
def Outline.cutFillers (o : Outline) : Option (List Token) × Outline :=
  let cut (indent : Nat) (entries : List Entry.Open) : Option (List Token) :=
    match entries.getLast? with
    | some e =>
      if e.sep.isNone && e.value.isNone && !e.lead.isEmpty && e.lead.all isFiller &&
          (indent = 0 || e.lead.all fun t => t.kind ≠ .comment || t.indent < indent) then some e.lead
      else none
    | none => none
  match o with
  | .map indent entries =>
    match cut indent entries with
    | some fillers => (some fillers, .map indent entries.dropLast)
    | none => (none, o)
  | .seq indent entries =>
    match cut indent entries with
    | some fillers => (some fillers, .seq indent entries.dropLast)
    | none => (none, o)
  | o => (none, o)

namespace Build

open Entry

def replaceTop (s : Build) (f : Frame) : Build :=
  { s with stack := f :: s.stack.drop 1 }

def push (s : Build) (o : Outline) : Build :=
  { s with stack := .node o :: s.stack }

/-- gives a closed node to the frame around it -/
def attach (s : Build) (parent : Frame) (rest : List Frame) (o : Outline) : Except Fault Build :=
  match parent with
  | .document start _ tail =>
    match o.cutFillers with
    | (some fillers, o) => .ok { s with stack := .document start (some o) (some fillers) :: rest }
    | (none, o) => .ok { s with stack := .document start (some o) tail :: rest }
  | .node (.map indent entries) =>
    match entries.getLast? with
    | none => .error .strayToken
    | some e =>
      if e.value.isSome then
        .ok { s with stack := .node (.map indent (entries ++ [{ key := some o, sep := some [] }])) :: rest, onKeyLine := true }
      else if e.sep.isSome then
        let (fillers, o) := o.cutFillers
        let entries := updateLast (fun e => { e with value := some o }) entries
        .ok { s with stack := .node (.map indent (entries ++ (fillers.map fun ts => { lead := ts }).toList)) :: rest }
      else
        .ok { s with
          stack := .node (.map indent (updateLast (fun e => { e with key := some o, sep := some [] }) entries)) :: rest
          onKeyLine := !e.explicitKey }
  | .node (.seq indent entries) =>
    match entries.getLast? with
    | none => .error .strayToken
    | some e =>
      let (fillers, o) := o.cutFillers
      let entries :=
        if e.value.isSome then entries ++ [{ value := some o }]
        else updateLast (fun e => { e with value := some o }) entries
      .ok { s with stack := .node (.seq indent (entries ++ (fillers.map fun ts => { lead := ts }).toList)) :: rest }
  | .node (.flow indent opening entries tail) =>
    let entries :=
      match entries.getLast? with
      | none => [{ key := some o, sep := some [] }]
      | some e =>
        if e.value.isSome then entries ++ [{ key := some o, sep := some [] }]
        else if e.sep.isSome then updateLast (fun e => { e with value := some o }) entries
        else updateLast (fun e => { e with key := some o, sep := some [] }) entries
    .ok { s with stack := .node (.flow indent opening entries tail) :: rest }
  | _ => .error .strayToken

/-- closes the innermost frame -/
def pop (s : Build) : Except Fault Build :=
  match s.stack with
  | [] => .error .strayToken
  | .document start body tail :: rest =>
    .ok { s with stack := rest, parts := .document start body (tail.getD []) :: s.parts }
  | .documentEnd tail :: rest => .ok { s with stack := rest, parts := .documentEnd tail :: s.parts }
  | .node o :: parent :: rest =>
    let outer : Nat :=
      match parent with
      | .node p => p.indent
      | _ => 0
    match o with
    | .block _ header body => s.attach parent rest (.block outer header body)
    | .flow indent opening entries tail =>
      let atRoot : Bool :=
        match parent with
        | .document .. => true
        | _ => false
      s.attach parent rest (Outline.flow (if atRoot then 0 else indent) opening entries tail).settled
    | o => s.attach parent rest o
  | [.node _] => .error .strayToken

/-- the properties in front of a key that begins now, taken from the frame that has them -/
def takeKeyLead (f : Frame) : List Token × Frame :=
  match f with
  | .document start body tail =>
    let (kept, lead) := cutKeyLead start
    (lead, .document kept body tail)
  | .node (.map indent entries) =>
    match entries.getLast? with
    | some e =>
      let (kept, lead) := cutKeyLead (e.sep.getD e.lead)
      (lead, .node (.map indent
        (updateLast (fun e => if e.sep.isSome then { e with sep := some kept } else { e with lead := kept }) entries)))
    | none => ([], f)
  | .node (.seq indent entries) =>
    match entries.getLast? with
    | some e =>
      let (kept, lead) := cutKeyLead e.lead
      (lead, .node (.seq indent (updateLast (fun e => { e with lead := kept }) entries)))
    | none => ([], f)
  | f => ([], f)

/-- opens a frame for what begins with a token, if something can -/
def openValue? (s : Build) (t : Token) : Option Build :=
  match t.kind with
  | .alias | .text | .single | .double => some (s.push (.scalar t none))
  | .blockHeader => some (s.push (.block s.indent [t] []))
  | .openBrace | .openBracket => some (s.push (.flow s.indent t [] []))
  | .dash => some (s.push (.seq s.indent [{ lead := [t] }]))
  | .question =>
    match s.stack with
    | parent :: rest =>
      let (lead, parent) := takeKeyLead parent
      let entry : Entry.Open := { lead := lead ++ [t], explicitKey := true }
      some { s with onKeyLine := true, stack := .node (.map s.indent [entry]) :: parent :: rest }
    | [] => none
  | .colon =>
    match s.stack with
    | parent :: rest =>
      let (lead, parent) := takeKeyLead parent
      some { s with onKeyLine := true, stack := .node (.map s.indent [{ lead, sep := some [t] }]) :: parent :: rest }
    | [] => none
  | _ => none

/-- what a frame does with a token: takes it, or is closed first -/
inductive Outcome where
  | taken (s : Build)
  | closes
  | fault (f : Fault)

/-- the outermost level -/
def atStream (s : Build) (t : Token) : Outcome :=
  match t.kind with
  | .directive => .taken { s with parts := .directive t.text :: s.parts }
  | .byteOrderMark | .space | .comment | .newline => .taken s
  | .contentStart => .taken { s with stack := [.document [] none none] }
  | .documentStart => .taken { s with stack := [.document [t] none none] }
  | _ => .fault .strayToken

/-- after a scalar or a collection, up to the end of the line; `add` puts a token to what follows it -/
def afterValue (s : Build) (t : Token) (add : Token → Frame) : Outcome :=
  match t.kind with
  | .comma | .documentStart | .documentEnd | .closeBracket | .closeBrace | .colon => .closes
  | .newline =>
    match pop { s.replaceTop (add t) with onKeyLine := false } with
    | .ok s => .taken s
    | .error f => .fault f
  | _ => .taken (s.replaceTop (add t))

def atDocument (s : Build) (t : Token) (start : List Token) (body : Option Outline) (tail : Option (List Token)) : Outcome :=
  if body.isSome then s.afterValue t fun t => .document start body (some (tail.getD [] ++ [t]))
  else
    let takes := Outcome.taken (s.replaceTop (.document (start ++ [t]) body tail))
    match t.kind with
    | .documentStart => if start.all isFiller then takes else .closes
    | .anchor | .tag | .space | .comment | .newline => takes
    | _ =>
      match s.openValue? t with
      | some s => .taken s
      | none => .fault .strayToken

def atScalar (s : Build) (t : Token) (token : Token) (tail : Option (List Token)) : Outcome :=
  if t.kind = .colon then
    match s.stack with
    | _ :: parent :: rest =>
      let (lead, parent) := takeKeyLead parent
      let entry : Entry.Open := { lead, key := some (.scalar token none), sep := some (tail.getD [] ++ [t]) }
      .taken { s with onKeyLine := true, stack := .node (.map token.indent [entry]) :: parent :: rest }
    | _ => .fault .strayToken
  else s.afterValue t fun t => .node (.scalar token (some (tail.getD [] ++ [t])))

def atBlock (s : Build) (t : Token) (indent : Nat) (header : List Token) (body : List Char) : Outcome :=
  match t.kind with
  | .space | .comment | .newline => .taken (s.replaceTop (.node (.block indent (header ++ [t]) body)))
  | .text =>
    match pop { s.replaceTop (.node (.block indent header t.text)) with fresh := true, indent := 0 } with
    | .ok s => .taken s
    | .error f => .fault f
  | _ => .closes

/-- a comment that is indented further than the collection, after nothing but blank space -/
def isIndentedComment (t : Token) (lead : List Token) (indent : Nat) : Bool :=
  t.kind = .comment && indent < t.indent && lead.all fun t => t.kind = .newline || t.kind = .space

/-- a filler in a block collection; `fits` is false while a separator is read -/
def addFiller (entries : List Entry.Open) (t : Token) (indent : Nat) : List Entry.Open :=
  match entries.getLast? with
  | none => entries
  | some e =>
    if e.value.isSome then
      if t.kind = .newline && ((e.valueTail?.bind List.getLast?).any fun u => u.kind = .comment) then
        updateLast (·.addToValue [t]) entries
      else entries ++ [{ lead := [t] }]
    else if e.sep.isSome then updateLast (·.addSep [t]) entries
    else
      let before := entries.dropLast
      if isIndentedComment t e.lead indent && ((before.getLast?.bind Entry.valueTail?).isSome) then
        updateLast (·.addToValue (e.lead ++ [t])) before
      else updateLast (·.addLead [t]) entries

/-- the line ends after a separator from the second on, up to the next entry: they belong to that one -/
def cutBlankLines (indent : Nat) (sep : List Token) : List Token × List Token :=
  let breaks := (sep.zipIdx).foldl (fun found (t, i) =>
    match t.kind with
    | .newline => found ++ [i]
    | .space => found
    | .comment => if indent < t.indent then [] else found
    | _ => []) []
  match breaks with
  | _ :: second :: _ => (sep.take second, sep.drop second)
  | _ => (sep, [])

def atMap (s : Build) (t : Token) (indent : Nat) (entries : List Entry.Open) : Outcome :=
  let set (entries : List Entry.Open) : Build := s.replaceTop (.node (.map indent entries))
  match entries.getLast? with
  | none => .fault .strayToken
  | some e =>
    if isFiller t then
      let s := set (addFiller entries t indent)
      .taken (if t.kind = .newline then { s with onKeyLine := false } else s)
    else if s.indent < indent then .closes
    else
      let atIndent := !s.onKeyLine && s.indent = indent
      let next := atIndent && (e.sep.isSome || e.explicitKey) && t.kind ≠ .dash
      let (kept, start) :=
        if next && e.value.isNone then
          match e.sep with
          | some sep => cutBlankLines indent sep
          | none => ([], [])
        else (e.sep.getD [], [])
      let entries := if e.sep.isSome then updateLast (fun e => { e with sep := some kept }) entries else entries
      let onKey (s : Build) : Outcome := .taken { s with onKeyLine := true }
      match t.kind with
      | .anchor | .tag =>
        if next || e.value.isSome then onKey (set (entries ++ [{ lead := start ++ [t] }]))
        else if e.sep.isSome then .taken (set (updateLast (·.addSep [t]) entries))
        else .taken (set (updateLast (·.addLead [t]) entries))
      | .question =>
        if e.sep.isNone && !e.explicitKey then
          onKey (set (updateLast (fun e => { e with lead := e.lead ++ [t], explicitKey := true }) entries))
        else if next || e.value.isSome then onKey (set (entries ++ [{ lead := start ++ [t], explicitKey := true }]))
        else onKey ((set entries).push (.map s.indent [{ lead := [t], explicitKey := true }]))
      | .colon =>
        if e.explicitKey then
          match e.sep with
          | none =>
            if holds e.lead .newline then onKey (set (updateLast (fun e => { e with sep := some [t] }) entries))
            else
              let (rest, lead) := cutKeyLead e.lead
              onKey ((set (updateLast (fun e => { e with lead := rest }) entries)).push
                (.map s.indent [{ lead, sep := some [t] }]))
          | some _ =>
            if e.value.isSome then onKey (set (entries ++ [{ sep := some [t] }]))
            else if holds kept .colon then
              onKey ((set entries).push (.map s.indent [{ lead := start, sep := some [t] }]))
            else if (e.key.any Outline.isFlowLike) && !holds kept .newline then
              let (rest, lead) := cutKeyLead e.lead
              onKey ((set (updateLast (fun e => { e with lead := rest, key := none, sep := none }) entries)).push
                (.map s.indent [{ lead, key := e.key, sep := some (kept ++ [t]) }]))
            else onKey (set (updateLast (·.addSep (start ++ [t])) entries))
        else
          match e.sep with
          | none => onKey (set (updateLast (fun e => { e with sep := some [t] }) entries))
          | some _ =>
            if e.value.isSome || next then onKey (set (entries ++ [{ lead := start, sep := some [t] }]))
            else if holds kept .colon then onKey ((set entries).push (.map s.indent [{ sep := some [t] }]))
            else onKey (set (updateLast (·.addSep [t]) entries))
      | .alias | .text | .single | .double =>
        let scalar := Outline.scalar t none
        if next || e.value.isSome then onKey (set (entries ++ [{ lead := start, key := some scalar, sep := some [] }]))
        else if e.sep.isSome then .taken ((set entries).push scalar)
        else onKey (set (updateLast (fun e => { e with key := some scalar, sep := some [] }) entries))
      | .dash =>
        if !e.explicitKey && e.sep.isSome && !holds kept .newline then .fault .sequenceAfterKey
        else
          match (set entries).openValue? t with
          | some s => .taken s
          | none => .closes
      | _ =>
        match (set (if atIndent then entries ++ [{ lead := start }] else entries)).openValue? t with
        | some s => .taken s
        | none => .closes

def atSeq (s : Build) (t : Token) (indent : Nat) (entries : List Entry.Open) : Outcome :=
  let set (entries : List Entry.Open) : Build := s.replaceTop (.node (.seq indent entries))
  match entries.getLast? with
  | none => .fault .strayToken
  | some e =>
    let opens : Outcome :=
      if indent < s.indent then
        match s.openValue? t with
        | some s => .taken s
        | none => .closes
      else .closes
    match t.kind with
    | .newline | .space | .comment => .taken (set (addFiller entries t indent))
    | .anchor | .tag =>
      if e.value.isSome || s.indent ≤ indent then opens else .taken (set (updateLast (·.addLead [t]) entries))
    | .dash =>
      if s.indent ≠ indent then opens
      else if e.value.isSome || holds e.lead .dash then .taken (set (entries ++ [{ lead := [t] }]))
      else .taken (set (updateLast (·.addLead [t]) entries))
    | _ => opens

/-- inside a flow collection that is still open -/
def atFlow (s : Build) (t : Token) (indent : Nat) (opening : Token) (entries : List Entry.Open) : Outcome :=
  let set (entries : List Entry.Open) : Build := s.replaceTop (.node (.flow indent opening entries []))
  let last := entries.getLast?
  let hasValue := last.all fun e => e.value.isSome
  let hasSep := last.all fun e => e.sep.isSome
  match t.kind with
  | .comma | .question =>
    if hasSep then .taken (set (entries ++ [{ lead := [t] }])) else .taken (set (updateLast (·.addLead [t]) entries))
  | .colon =>
    if hasValue then .taken (set (entries ++ [{ sep := some [t] }]))
    else .taken (set (updateLast (·.addSep [t]) entries))
  | .space | .comment | .newline | .anchor | .tag =>
    if hasValue then .taken (set (entries ++ [{ lead := [t] }]))
    else if hasSep then .taken (set (updateLast (·.addSep [t]) entries))
    else .taken (set (updateLast (·.addLead [t]) entries))
  | .alias | .text | .single | .double =>
    let scalar := Outline.scalar t none
    if hasValue then .taken (set (entries ++ [{ key := some scalar, sep := some [] }]))
    else if hasSep then .taken (s.push scalar)
    else .taken (set (updateLast (fun e => { e with key := some scalar, sep := some [] }) entries))
  | .closeBrace | .closeBracket => .taken (s.replaceTop (.node (.flow indent opening entries [t])))
  | _ =>
    match s.openValue? t with
    | some s => .taken s
    | none => .closes

/-- after the closing bracket of a flow collection, which may turn out to be a key -/
def afterFlow (s : Build) (t : Token) (indent : Nat) (opening : Token) (entries : List Entry.Open) (tail : List Token) :
    Outcome :=
  match s.stack with
  | _ :: parent :: rest =>
    let closesHere : Bool :=
      match parent with
      | .node (.map outer es) =>
        (t.kind = .colon && outer = indent) || (t.kind = .newline && es.getLast?.all fun e => e.sep.isNone)
      | _ => false
    let inFlow : Bool :=
      match parent with
      | .node (.flow ..) => true
      | _ => false
    if closesHere then .closes
    else if t.kind = .colon && !inFlow then
      let (lead, parent) := takeKeyLead parent
      let key := (Outline.flow indent opening entries (tail.take 1)).settled
      let entry : Entry.Open := { lead, key := some key, sep := some (tail.drop 1 ++ [t]) }
      .taken { s with onKeyLine := true, stack := .node (.map indent [entry]) :: parent :: rest }
    else s.afterValue t fun t => .node (.flow indent opening entries (tail ++ [t]))
  | _ => .fault .strayToken

def offer (s : Build) (t : Token) : Outcome :=
  match s.stack with
  | [] => s.atStream t
  | .documentEnd tail :: _ =>
    if t.kind = .contentStart then .taken s
    else
      let s := s.replaceTop (.documentEnd (tail ++ [t]))
      if t.kind = .newline then
        match s.pop with
        | .ok s => .taken s
        | .error f => .fault f
      else .taken s
  | .document start body tail :: _ => s.atDocument t start body tail
  | .node (.scalar token tail) :: _ => s.atScalar t token tail
  | .node (.block indent header body) :: _ => s.atBlock t indent header body
  | .node (.map indent entries) :: _ => s.atMap t indent entries
  | .node (.seq indent entries) :: _ => s.atSeq t indent entries
  | .node (.flow indent opening entries []) :: _ => s.atFlow t indent opening entries
  | .node (.flow indent opening entries tail) :: _ => s.afterFlow t indent opening entries tail

/-- offers a token to the frames from the innermost on, closing those that do not take it -/
def place : Nat → Build → Token → Except Fault Build
  | 0, _, _ => .error .strayToken
  | frames + 1, s, t =>
    match s.offer t with
    | .taken s => .ok s
    | .closes => do place frames (← s.pop) t
    | .fault f => .error f

/-- closes all frames -/
def closeAll : Nat → Build → Except Fault Build
  | 0, s => .ok s
  | frames + 1, s => if s.stack.isEmpty then .ok s else do closeAll frames (← s.pop)

/-- what a token changes about the place in the line -/
def advance (s : Build) (t : Token) : Build :=
  match t.kind with
  | .newline => { s with fresh := true, indent := 0 }
  | .space =>
    if s.fresh && t.text.head? = some ' ' then { s with indent := s.indent + t.text.length } else s
  | .question | .colon | .dash => if s.fresh then { s with indent := s.indent + t.text.length } else s
  | .contentStart | .text => s
  | _ => { s with fresh := false }

def step (s : Build) (t : Token) : Except Fault Build := do
  let t := { t with indent := s.indent }
  let s := if t.kind = .text then { s with fresh := false } else s
  let closed : Bool :=
    match s.stack with
    | .documentEnd _ :: _ => true
    | _ => false
  if t.kind = .documentEnd && !closed then
    let s ← closeAll s.stack.length s
    return { s with stack := [.documentEnd []] }.advance t
  else
    return (← place (s.stack.length + 1) s t).advance t

end Build

/-- the parts that some tokens make up -/
def Part.ofTokens (ts : List Token) : Except Fault (List Part) := do
  let s ← ts.foldlM Build.step {}
  let s ← Build.closeAll s.stack.length s
  return s.parts.reverse

end ChangeImpact.Yaml
