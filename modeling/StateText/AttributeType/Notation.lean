import StateText.AttributeType
import StateText.Json.Printer
import StateText.Json.Reader

/-!
# The notation of attribute types

A type is written as a JSON document: a word for a simple type, and a pair of a word and the inner
notation for a collection. `ofJson` reads it.
-/

namespace StateText.AttributeType

inductive NotationError where
  | unknownPrimitive (word : String)
  | notPair (count : Nat)
  | fieldsNotObject
  | elementsNotList
  | unknownKind (kind : Json)
  | unexpected (j : Json)

namespace NotationError

def detail : NotationError → String
  | unknownPrimitive word => "unknown primitive type " ++ Text.quoted word
  | notPair count => "expected [kind, element], got " ++ toString count ++ " items"
  | fieldsNotObject => "object type needs a map of attribute types"
  | elementsNotList => "tuple type needs a list of element types"
  | unknownKind kind => "unknown collection kind " ++ kind.render
  | unexpected j => "unexpected type notation " ++ j.render

def message (e : NotationError) : String := "Invalid type constraint: " ++ e.detail

end NotationError

def primitive? : String → Option AttributeType
  | "string" => some string
  | "number" => some number
  | "bool" => some bool
  | "dynamic" => some dynamic
  | _ => none

mutual

def ofJson : Json → Except NotationError AttributeType
  | .string word =>
    match primitive? word with
    | some type => .ok type
    | none => .error (.unknownPrimitive word)
  | .array [kind, inner] =>
    match kind.asString? with
    | some "list" => (ofJson inner).map list
    | some "set" => (ofJson inner).map set
    | some "map" => (ofJson inner).map map
    | some "object" =>
      match inner with
      | .object fields => (ofFields fields).map object
      | _ => .error .fieldsNotObject
    | some "tuple" =>
      match inner with
      | .array elements => (ofElements elements).map tuple
      | _ => .error .elementsNotList
    | _ => .error (.unknownKind kind)
  | .array parts => .error (.notPair parts.length)
  | j => .error (.unexpected j)

def ofFields : List (String × Json) → Except NotationError (List (String × AttributeType))
  | [] => .ok []
  | (name, j) :: fields =>
    match ofJson j with
    | .error e => .error e
    | .ok type => (ofFields fields).map ((name, type) :: ·)

def ofElements : List Json → Except NotationError (List AttributeType)
  | [] => .ok []
  | j :: js =>
    match ofJson j with
    | .error e => .error e
    | .ok type => (ofElements js).map (type :: ·)

end

/-- A type as a field of a record: the notation's own words make the fault. -/
def read (j : Json) : Except String AttributeType := (ofJson j).mapError NotationError.message

end StateText.AttributeType
