/-
Values that a text can hold: what a configuration is read into and what an event carries.

`Value.kind` is the kind a value has in a report about a wrong type, and `Value.display` the text
that stands for a value in a message: an array is the texts of its items with commas between them,
in which null is empty, and an object is always the same text. Some values have no such text
(`Value.hasText`). Equality of values is decided by `Value.decEq`; the order of an object's fields
counts.
-/
import ChangeImpact.Value.Fields

namespace ChangeImpact

inductive Value where
  | null
  | bool (b : Bool)
  | number (n : Number)
  | string (s : String)
  | array (items : List Value)
  | object (fields : List (String × Value))
  deriving Inhabited

/-- the kinds of value that a report tells apart; `missing` is a field that is not there -/
inductive Kind where
  | missing
  | null
  | boolean
  | number
  | notNumber
  | string
  | array
  | object
  deriving DecidableEq

def Kind.name : Kind → String
  | .missing => "undefined"
  | .null => "null"
  | .boolean => "boolean"
  | .number => "number"
  | .notNumber => "nan"
  | .string => "string"
  | .array => "array"
  | .object => "object"

namespace Value

mutual

/-- whether two values are equal -/
def decEq : (v w : Value) → Decidable (v = w)
  | .null, w =>
    match w with
    | .null => isTrue rfl
    | .bool _ | .number _ | .string _ | .array _ | .object _ => isFalse nofun
  | .bool a, w =>
    match w with
    | .bool b => decidable_of_iff (a = b) (by simp)
    | .null | .number _ | .string _ | .array _ | .object _ => isFalse nofun
  | .number a, w =>
    match w with
    | .number b => decidable_of_iff (a = b) (by simp)
    | .null | .bool _ | .string _ | .array _ | .object _ => isFalse nofun
  | .string a, w =>
    match w with
    | .string b => decidable_of_iff (a = b) (by simp)
    | .null | .bool _ | .number _ | .array _ | .object _ => isFalse nofun
  | .array a, w =>
    match w with
    | .array b => @decidable_of_iff _ (a = b) (by simp) (decEqItems a b)
    | .null | .bool _ | .number _ | .string _ | .object _ => isFalse nofun
  | .object a, w =>
    match w with
    | .object b => @decidable_of_iff _ (a = b) (by simp) (decEqFields a b)
    | .null | .bool _ | .number _ | .string _ | .array _ => isFalse nofun

def decEqItems : (vs ws : List Value) → Decidable (vs = ws)
  | [], [] => isTrue rfl
  | [], _ :: _ | _ :: _, [] => isFalse nofun
  | v :: vs, w :: ws =>
    @decidable_of_iff _ (v = w ∧ vs = ws) (by simp) (@instDecidableAnd _ _ (decEq v w) (decEqItems vs ws))

def decEqFields : (fields others : List (String × Value)) → Decidable (fields = others)
  | [], [] => isTrue rfl
  | [], _ :: _ | _ :: _, [] => isFalse nofun
  | (key, v) :: fields, (other, w) :: others =>
    @decidable_of_iff _ ((key = other ∧ v = w) ∧ fields = others) (by simp)
      (@instDecidableAnd _ _ (@instDecidableAnd _ _ inferInstance (decEq v w)) (decEqFields fields others))

end

instance : DecidableEq Value := decEq

def kind : Value → Kind
  | .null => .null
  | .bool _ => .boolean
  | .number .undefined => .notNumber
  | .number _ => .number
  | .string _ => .string
  | .array _ => .array
  | .object _ => .object

/-- the object that a list of entries writes -/
def ofEntries (entries : List (String × Value)) : Value :=
  .object (Fields.ofEntries entries)

def ofNat (n : Nat) : Value :=
  .number (.ofRatio false n 1)

/-- texts with commas between them -/
def commas : List String → String
  | [] => ""
  | [s] => s
  | s :: rest => s ++ "," ++ commas rest

mutual

/-- the text that stands for a value in a message -/
def display : Value → String
  | .null => "null"
  | .bool b => if b then "true" else "false"
  | .number n => String.ofList n.text
  | .string s => s
  | .array items => commas (displayItems items)
  | .object _ => "[object Object]"

def displayItems : List Value → List String
  | [] => []
  | .null :: rest => "" :: displayItems rest
  | v :: rest => v.display :: displayItems rest

end

mutual

/-- whether there is a text that stands for a value: a field of the name of what makes the text of an object is in its way -/
def hasText : Value → Bool
  | .array items => itemsHaveText items
  | .object fields => (fields.lookup "toString").isNone
  | .null | .bool _ | .number _ | .string _ => true

def itemsHaveText : List Value → Bool
  | [] => true
  | v :: rest => v.hasText && itemsHaveText rest

end

end Value

end ChangeImpact
