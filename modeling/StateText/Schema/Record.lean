import StateText.AttributeType.Notation
import StateText.Json.Record
import StateText.Schema

/-!
# The schemas file

The records of the file that holds the schemas. Only an attribute has fields that must be given.
-/

namespace StateText

open Json.Reader

def AttributeType.reader (depth : Nat) : Json.Reader AttributeType := fun cs =>
  match value depth cs with
  | .error f => .error f
  | .ok (j, rest) =>
    match AttributeType.read j with
    | .ok type => .ok (type, rest)
    | .error message => .error (.unsettled (.refused message) rest)

namespace Attribute

structure Fields where
  name : Option String
  type : Option AttributeType

def shape : Shape Fields Attribute where
  name := "Attribute"
  start := ⟨none, none⟩
  member depth fields
    | "name" => once "name" fields.name text fun name => { fields with name := some name }
    | "type" =>
      once "type" fields.type (AttributeType.reader depth) fun type =>
        { fields with type := some type }
    | _ => skipMember fields
  finish fields := do
    let name ← requireField "name" fields.name
    let type ← requireField "type" fields.type
    return ⟨name, type⟩
  sequence depth cs := do
    let expected := "struct Attribute with 2 elements"
    let (name, cs) ← nextRequired 0 expected text cs
    let (type, cs) ← nextRequired 1 expected (AttributeType.reader depth) cs
    return (⟨name, type⟩, cs)

end Attribute

namespace ResourceSchema

def shape : Shape (Option (List Attribute)) ResourceSchema where
  name := "Block"
  start := none
  member depth attributes
    | "attributes" => once "attributes" attributes (list (record Attribute.shape) depth) some
    | _ => skipMember attributes
  finish attributes := .ok ⟨attributes.getD []⟩
  sequence depth cs := do
    let (attributes, cs) ← nextOr 0 [] (list (record Attribute.shape) depth) cs
    return (⟨attributes⟩, cs)

end ResourceSchema

namespace Provider

structure Fields where
  resourceTypes : Option (Entries String ResourceSchema)
  dataSources : Option (Entries String ResourceSchema)

def blocks (depth : Nat) : Json.Reader (Entries String ResourceSchema) :=
  entries (record ResourceSchema.shape) depth

def shape : Shape Fields Provider where
  name := "ProviderSchema"
  start := ⟨none, none⟩
  member depth fields
    | "resource_types" =>
      once "resource_types" fields.resourceTypes (blocks depth) fun types =>
        { fields with resourceTypes := some types }
    | "data_sources" =>
      once "data_sources" fields.dataSources (blocks depth) fun sources =>
        { fields with dataSources := some sources }
    | _ => skipMember fields
  finish fields := .ok ⟨fields.resourceTypes.getD [], fields.dataSources.getD []⟩
  sequence depth cs := do
    let (types, cs) ← nextOr 0 [] (blocks depth) cs
    let (sources, cs) ← nextOr 1 [] (blocks depth) cs
    return (⟨types, sources⟩, cs)

end Provider

namespace Schemas

def providersReader (depth : Nat) : Json.Reader (Entries String Provider) :=
  entries (record Provider.shape) depth

def shape : Shape (Option (Entries String Provider)) Schemas where
  name := "Schemas"
  start := none
  member depth providers
    | "providers" => once "providers" providers (providersReader depth) some
    | _ => skipMember providers
  finish providers := .ok ⟨providers.getD []⟩
  sequence depth cs := do
    let (providers, cs) ← nextOr 0 [] (providersReader depth) cs
    return (⟨providers⟩, cs)

def parse (content : String) : Except Json.Fault Schemas :=
  document (record shape depthLimit) content

end Schemas

end StateText
