/-!
# Attribute types

The declared shape of an attribute. An object type lists its fields in declared order.
-/

namespace StateText

inductive AttributeType where
  | string
  | number
  | bool
  /-- Any shape, taken from the document itself. -/
  | dynamic
  | list (element : AttributeType)
  | set (element : AttributeType)
  | map (element : AttributeType)
  | object (fields : List (String × AttributeType))
  | tuple (elements : List AttributeType)

namespace AttributeType

def name : AttributeType → String
  | string => "string"
  | number => "number"
  | bool => "bool"
  | dynamic => "any value"
  | list _ => "list"
  | set _ => "set"
  | map _ => "map"
  | object _ => "object"
  | tuple _ => "tuple"

end AttributeType

end StateText
