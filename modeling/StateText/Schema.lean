import StateText.Address
import StateText.AttributeType
import StateText.Entries

/-!
# Schemas

What attributes the resource types and data sources of each provider have. `lookup` finds
those of a resource by provider, mode and type.
-/

namespace StateText

structure Attribute where
  name : String
  type : AttributeType

structure ResourceSchema where
  attributes : List Attribute

namespace ResourceSchema

def empty : ResourceSchema := ⟨[]⟩

def objectType (schema : ResourceSchema) : AttributeType :=
  .object (schema.attributes.map fun a => (a.name, a.type))

end ResourceSchema

structure Provider where
  resourceTypes : Entries String ResourceSchema
  dataSources : Entries String ResourceSchema

def Provider.empty : Provider := ⟨[], []⟩

structure Schemas where
  providers : Entries String Provider

namespace Schemas

def empty : Schemas := ⟨[]⟩

def lookup (schemas : Schemas) (provider : String) (mode : Mode) (type : String) :
    Option ResourceSchema :=
  match Entries.get? provider schemas.providers with
  | none => none
  | some p =>
    match mode with
    | .managed => Entries.get? type p.resourceTypes
    | .data => Entries.get? type p.dataSources
    | .unknown _ => none

@[simp] theorem lookup_unknown (schemas : Schemas) (provider word type : String) :
    schemas.lookup provider (.unknown word) type = none := by
  unfold lookup
  split <;> rfl

end Schemas

end StateText
