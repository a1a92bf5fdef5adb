import StateText.AttributeType
import StateText.Json.Reader
import StateText.Value

/-!
# Decoding attributes

`fit` reads a document as a value of a type. It takes the declared fields of an object in
declared order, the entries of a map and the elements of a list in theirs, and stops at the first
node that does not fit; the error carries the path from the root to that node.
-/

namespace StateText

inductive Step where
  | field (name : String)
  | index (i : Nat)
  | key (key : String)
deriving DecidableEq

namespace Step

def text : Step → String
  | field name => "." ++ name
  | index i => "[" ++ toString i ++ "]"
  | key k => "[" ++ Text.quoted k ++ "]"

def path (steps : List Step) : String := String.join (steps.map text)

end Step

namespace DecodeError

inductive Reason where
  /-- No value of the type is written like this. -/
  | kind (type : AttributeType) (found : Json)
  | notNumber (s : String)
  | tupleLength (required found : Nat)
  | undeclared (name : String)
  | invalidJson (fault : Json.Fault)

def Reason.message : Reason → String
  | kind type found => type.name ++ " required, got " ++ found.kind
  | notNumber s => "a number is required, got " ++ Text.quoted s
  | tupleLength required found =>
    "tuple required with " ++ toString required ++ " elements, got " ++ toString found
  | undeclared name => "unsupported attribute " ++ Text.quoted name
  | invalidJson fault => "invalid JSON: " ++ fault.message

end DecodeError

structure DecodeError where
  path : List Step
  reason : DecodeError.Reason

namespace DecodeError

def root (reason : Reason) : DecodeError := ⟨[], reason⟩

def under (step : Step) (e : DecodeError) : DecodeError := ⟨step :: e.path, e.reason⟩

def located (path message : String) : String :=
  if path = "" then message else path ++ ": " ++ message

def message (e : DecodeError) : String := e.reason.message

def display (e : DecodeError) : String := located (Step.path e.path) e.message

end DecodeError

namespace Decode

def elements {α : Type} (f : Json → Except DecodeError α) :
    (i : Nat) → List Json → Except DecodeError (List α)
  | _, [] => .ok []
  | i, j :: js =>
    match f j with
    | .error e => .error (e.under (.index i))
    | .ok a => (elements f (i + 1) js).map (a :: ·)

def entries {α : Type} (f : Json → Except DecodeError α) :
    List (String × Json) → Except DecodeError (List (String × α))
  | [] => .ok []
  | (key, j) :: js =>
    match f j with
    | .error e => .error (e.under (.key key))
    | .ok a => (entries f js).map ((key, a) :: ·)

def undeclared? {α : Type} (fields : List (String × AttributeType)) (js : List (String × α)) :
    Option String :=
  (Entries.keys js).find? fun name => !(Entries.keys fields).contains name

mutual

def fit : AttributeType → Json → Except DecodeError Value
  | _, .null => .ok .null
  | .dynamic, j => .ok (Value.ofJson j)
  | .string, .string s => .ok (.string s)
  | .string, .number n => .ok (.string (String.ofList n.text))
  | .string, .bool b => .ok (.string (if b then "true" else "false"))
  | .number, .number n => .ok (.number n)
  | .number, .string s =>
    match Number.ofText? s with
    | some n => .ok (.number n)
    | none => .error (.root (.notNumber s))
  | .bool, .bool b => .ok (.bool b)
  | .bool, .string s =>
    if s = "true" then .ok (.bool true)
    else if s = "false" then .ok (.bool false)
    else .error (.root (.kind .bool (.string s)))
  | .list element, .array js => (elements (fit element) 0 js).map .list
  | .set element, .array js => (elements (fit element) 0 js).map .set
  | .map element, .object js => (entries (fit element) js).map .map
  | .tuple types, .array js =>
    if types.length = js.length then (fitTuple types 0 js).map .tuple
    else .error (.root (.tupleLength types.length js.length))
  | .object fields, .object js =>
    match undeclared? fields js with
    | some name => .error (.root (.undeclared name))
    | none => (fitFields fields js).map fun vs => .object (Entries.ofPairs vs)
  | type, j => .error (.root (.kind type j))

def fitTuple : List AttributeType → (i : Nat) → List Json → Except DecodeError (List Value)
  | type :: types, i, j :: js =>
    match fit type j with
    | .error e => .error (e.under (.index i))
    | .ok v => (fitTuple types (i + 1) js).map (v :: ·)
  | _, _, _ => .ok []

/-- A field that the object does not have is null. -/
def fitFields :
    List (String × AttributeType) → List (String × Json) →
      Except DecodeError (List (String × Value))
  | [], _ => .ok []
  | (name, type) :: fields, js =>
    match fit type ((Entries.get? name js).getD .null) with
    | .error e => .error (e.under (.field name))
    | .ok v => (fitFields fields js).map ((name, v) :: ·)

end

def decode (type : AttributeType) (text : String) : Except DecodeError Value :=
  match Json.parse text with
  | .error fault => .error (.root (.invalidJson fault))
  | .ok j => fit type j

end Decode

end StateText
