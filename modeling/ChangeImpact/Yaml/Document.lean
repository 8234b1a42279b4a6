/-
Reading a YAML text as a value.

A text holds at most one document. Its aliases are replaced by what the anchor of that name before
them marks, so they may not stand for too much in all; an alias inside what its own anchor marks
would go on for ever and is followed a few times only. Keys that are no texts become texts, and of
two keys that become equal the later gives the value. `read` is the whole way from a text to a
value.
-/
import ChangeImpact.Yaml.Node

namespace ChangeImpact.Yaml

/-! ## Documents -/

/-- the directives so far, and the document once it was found -/
structure Reading where
  handles : Handles
  /-- a directive waits for its document -/
  atDirectives : Bool
  document : Option Node

def defaultHandles : Handles :=
  [("!!", "tag:yaml.org,2002:")]

/-- the words of a directive -/
def words (cs : List Char) : List (List Char) :=
  match cs with
  | [] => []
  | c :: rest =>
    match words rest with
    | [] => if isSpaceOrTab c then [[]] else [[c]]
    | w :: ws => if isSpaceOrTab c then (if w.isEmpty then w :: ws else [] :: w :: ws) else (c :: w) :: ws

/-- digits, a point and digits -/
def isVersion (cs : List Char) : Bool :=
  let whole := cs.takeWhile Char.isDigit
  match cs.drop whole.length with
  | '.' :: fraction => !whole.isEmpty && !fraction.isEmpty && fraction.all Char.isDigit
  | _ => false

def readDirective (r : Reading) (text : List Char) : Except Fault Reading :=
  let r := { r with atDirectives := true }
  match (words (dropBlanksEnd text)).map String.ofList with
  | ["%TAG", handle, start] => .ok { r with handles := (handle, start) :: r.handles }
  | "%TAG" :: _ => .error .badDirective
  | ["%YAML", version] => if isVersion version.toList then .ok r else .error .badDirective
  | "%YAML" :: _ => .error .badDirective
  | _ => .ok r

/-- the node of a document's outline -/
def documentNode (handles : Handles) (atDirectives : Bool) (start : List Token) (body : Option Outline) (tail : List Token) :
    Except Fault Node := do
  let next : Next :=
    match body, tail with
    | some o, _ => .node o
    | none, t :: _ => .token t
    | none, [] => .nothing
  let p ← Props.read false .documentStart next 0 true start
  if p.found.isSome && (body.any Outline.isBlock) && !p.hasNewline then throw .missingSpace
  let node ←
    match body with
    | some o => compose handles true p o
    | none => emptyNode handles p
  checkTail false false tail
  if atDirectives && p.found.isNone then throw .missingStart
  return node

def readPart (r : Reading) : Part → Except Fault Reading
  | .directive text => readDirective r text
  | .document start body tail => do
    let node ← documentNode r.handles r.atDirectives start body tail
    if r.document.isSome then throw .severalDocuments
    return { handles := defaultHandles, atDirectives := false, document := some node }
  | .documentEnd tail => do
    if r.document.isNone then throw .strayEnd
    checkTail true false tail
    return r

/-- the only document of a text, if there is one -/
def Node.ofText (cs : List Char) : Except Fault (Option Node) := do
  let parts ← Part.ofTokens (← Token.ofText cs)
  let r ← parts.foldlM readPart ⟨defaultHandles, false, none⟩
  if r.document.isNone && r.atDirectives then throw .missingStart
  return r.document

/-! ## Keys as texts -/

/-- a text that means the same inside brackets without quotes -/
def isPlainInFlow (cs : List Char) : Bool :=
  match cs with
  | [] => false
  | c :: _ =>
    !(cs.any isFlowIndicator) && !(cs.contains '\n') && !(isGap c) && !("-?:&*#!|>'\"%@\x60".toList.contains c) &&
      (match plainValue cs with
        | .string _ => true
        | _ => false)

mutual

/-- a collection that is a key, written inside brackets -/
def Node.flowText : Node → String
  | .scalar _ plain (.string s) =>
    if plain && isPlainInFlow s.toList then s else "\"" ++ s ++ "\""
  | .scalar _ _ v => v.display
  | .list _ [] => "[]"
  | .list _ items => "[ " ++ ", ".intercalate (Node.flowTexts items) ++ " ]"
  | .map _ [] => "\x7b\x7d"
  | .map _ pairs => "\x7b " ++ ", ".intercalate (Node.pairTexts pairs) ++ " \x7d"
  | .alias name => "*" ++ name

def Node.flowTexts : List Node → List String
  | [] => []
  | n :: rest => n.flowText :: Node.flowTexts rest

def Node.pairTexts : List (Node × Option Node) → List String
  | [] => []
  | (k, v) :: rest =>
    (k.flowText ++
      (match v with
        | some v => ": " ++ v.flowText
        | none => "")) :: Node.pairTexts rest

end

/-- the text of a key: its value's, and nothing for null -/
def keyText (key : Node) (value : Value) : String :=
  match value with
  | .null => ""
  | .array _ => key.flowText
  | .object _ => key.flowText
  | v => v.display

/-! ## Aliases -/

/-- what an anchor marks, and how much its aliases stand for -/
structure Anchored where
  name : String
  node : Node
  value : Option Value := none
  uses : Nat := 1
  weight : Nat := 0

/-- the anchors so far, the latest first -/
abbrev Anchors := List Anchored

/-- how much all aliases of one anchor may stand for -/
def heaviest : Nat := 100

/-- changes the latest anchor of a name -/
def updateNamed (name : String) (f : Anchored → Anchored) : Anchors → Anchors
  | [] => []
  | a :: rest => if a.name = name then f a :: rest else a :: updateNamed name f rest

/-- gives its value to the anchor that has so many before it -/
def finish (before : Nat) (value : Value) : Anchors → Anchors
  | [] => []
  | a :: rest => if rest.length = before then { a with value := some value } :: rest else a :: finish before value rest

def latest? (anchors : Anchors) (name : String) : Option Anchored :=
  anchors.find? fun a => a.name = name

mutual

/-- the most that one part of a node stands for -/
def Node.weight (anchors : Anchors) : Node → Nat
  | .scalar .. => 1
  | .alias name => ((latest? anchors name).map fun a => a.uses * a.weight).getD 0
  | .list _ items => Node.weights anchors items
  | .map _ pairs => Node.pairWeights anchors pairs

def Node.weights (anchors : Anchors) : List Node → Nat
  | [] => 0
  | n :: rest => max (n.weight anchors) (Node.weights anchors rest)

def Node.pairWeights (anchors : Anchors) : List (Node × Option Node) → Nat
  | [] => 0
  | (k, v) :: rest =>
    max (max (k.weight anchors)
      (match v with
        | some v => v.weight anchors
        | none => 1))
      (Node.pairWeights anchors rest)

end

mutual

/-- a node's value when the aliases are looked up among some values -/
def Node.valueWith (lookup : String → Value) : Node → Value
  | .scalar _ _ v => v
  | .alias name => lookup name
  | .list _ items => .array (Node.valuesWith lookup items)
  | .map _ pairs => Value.ofEntries (Node.entriesWith lookup pairs)

def Node.valuesWith (lookup : String → Value) : List Node → List Value
  | [] => []
  | n :: rest => n.valueWith lookup :: Node.valuesWith lookup rest

def Node.entriesWith (lookup : String → Value) : List (Node × Option Node) → List (String × Value)
  | [] => []
  | (k, v) :: rest =>
    (keyText k (k.valueWith lookup),
      match v with
      | some v => v.valueWith lookup
      | none => .null) :: Node.entriesWith lookup rest

end

/-- the value of an alias that is followed into what encloses it so many times -/
def enclosing (anchors : Anchors) : Nat → String → Value
  | 0, name =>
    match (latest? anchors name).map Anchored.node with
    | some (.list ..) => .array []
    | some (.map ..) => .object []
    | some (.scalar _ _ v) => v
    | _ => .null
  | times + 1, name =>
    match latest? anchors name with
    | some a => a.value.getD (a.node.valueWith (enclosing anchors times))
    | none => .null

/-- how many times an alias is followed into what encloses it -/
def deepest : Nat := 3

/-- the value of an alias, and the anchors with this use counted -/
def useAlias (anchors : Anchors) (name : String) : Except Fault (Value × Anchors) :=
  match latest? anchors name with
  | none => .error .unknownAlias
  | some a =>
    let uses := a.uses + 1
    let anchors := updateNamed name (fun a => { a with uses }) anchors
    let weight := if a.weight = 0 then a.node.weight anchors else a.weight
    if heaviest < uses * weight then .error .tooManyAliases
    else
      .ok (a.value.getD (enclosing anchors deepest name), updateNamed name (fun a => { a with weight }) anchors)

/-- the anchors with that of a node, if it has one -/
def enter (anchors : Anchors) (anchor : Option String) (node : Node) : Anchors :=
  match anchor with
  | some name => { name, node } :: anchors
  | none => anchors

/-- the anchors with the value of a node that was entered when there were so many -/
def leave (anchors : Anchors) (before : Nat) (anchor : Option String) (value : Value) : Anchors :=
  if anchor.isSome then finish before value anchors else anchors

mutual

/-- the value of a node, and the anchors after it -/
def Node.resolve (anchors : Anchors) : Node → Except Fault (Value × Anchors)
  | .scalar anchor plain v => .ok (v, leave (enter anchors anchor (.scalar anchor plain v)) anchors.length anchor v)
  | .alias name => useAlias anchors name
  | .list anchor items => do
    let (vs, after) ← Node.resolveAll (enter anchors anchor (.list anchor items)) items
    return (.array vs, leave after anchors.length anchor (.array vs))
  | .map anchor pairs => do
    let (entries, after) ← Node.resolvePairs (enter anchors anchor (.map anchor pairs)) pairs
    let v := Value.ofEntries entries
    return (v, leave after anchors.length anchor v)

def Node.resolveAll (anchors : Anchors) : List Node → Except Fault (List Value × Anchors)
  | [] => .ok ([], anchors)
  | n :: rest => do
    let (v, anchors) ← n.resolve anchors
    let (vs, anchors) ← Node.resolveAll anchors rest
    return (v :: vs, anchors)

def Node.resolvePairs (anchors : Anchors) : List (Node × Option Node) → Except Fault (List (String × Value) × Anchors)
  | [] => .ok ([], anchors)
  | (k, v) :: rest => do
    let (key, anchors) ← k.resolve anchors
    let (value, anchors) ←
      match v with
      | some v => v.resolve anchors
      | none => pure (.null, anchors)
    let (entries, anchors) ← Node.resolvePairs anchors rest
    return ((keyText k key, value) :: entries, anchors)

end

/-- the value that a text writes down, null when it holds no document -/
def read (text : String) : Except Fault Value := do
  match ← Node.ofText text.toList with
  | none => return .null
  | some node => return (← node.resolve []).1

end ChangeImpact.Yaml
