import StateText.Json

/-!
# Attribute values

A decoded value remembers what kind of collection it is, which its JSON form does not: `ofJson`
reads every list as a tuple and every object as an object, `toJson` forgets the kind.
-/

namespace StateText

inductive Value where
  | null
  | string (s : String)
  | number (n : Number)
  | bool (b : Bool)
  | list (items : List Value)
  | set (items : List Value)
  | tuple (items : List Value)
  | map (entries : List (String × Value))
  | object (fields : List (String × Value))

namespace Value

def isNull : Value → Bool
  | null => true
  | _ => false

/-- An object's field, and null for a missing one or for what is no object. -/
def field (v : Value) (name : String) : Value :=
  match v with
  | object fields => (Entries.get? name fields).getD null
  | _ => null

theorem field_object (name : String) (fields : List (String × Value)) :
    (object fields).field name = (Entries.get? name fields).getD null := rfl

mutual

def ofJson : Json → Value
  | .null => null
  | .bool b => bool b
  | .number n => number n
  | .string s => string s
  | .array items => tuple (ofItems items)
  | .object fields => object (ofFields fields)

def ofItems : List Json → List Value
  | [] => []
  | item :: items => ofJson item :: ofItems items

def ofFields : List (String × Json) → List (String × Value)
  | [] => []
  | (name, j) :: fields => (name, ofJson j) :: ofFields fields

end

mutual

def toJson : Value → Json
  | null => .null
  | string s => .string s
  | number n => .number n
  | bool b => .bool b
  | list items => .array (itemsToJson items)
  | set items => .array (itemsToJson items)
  | tuple items => .array (itemsToJson items)
  | map entries => .object (Entries.sorted (entriesToJson entries))
  | object fields => .object (Entries.sorted (entriesToJson fields))

def itemsToJson : List Value → List Json
  | [] => []
  | item :: items => toJson item :: itemsToJson items

def entriesToJson : List (String × Value) → List (String × Json)
  | [] => []
  | (name, v) :: entries => (name, toJson v) :: entriesToJson entries

end

@[simp] theorem ofItems_eq_map (items : List Json) : ofItems items = items.map ofJson := by
  induction items with
  | nil => rfl
  | cons item items ih => simp [ofItems, ih]

theorem ofFields_eq_map (fields : List (String × Json)) :
    ofFields fields = fields.map fun e => (e.1, ofJson e.2) := by
  induction fields with
  | nil => rfl
  | cons e fields ih => rw [ofFields, ih, List.map_cons]

@[simp] theorem itemsToJson_eq_map (items : List Value) :
    itemsToJson items = items.map toJson := by
  induction items with
  | nil => rfl
  | cons item items ih => simp [itemsToJson, ih]

@[simp] theorem keys_ofFields (fields : List (String × Json)) :
    Entries.keys (ofFields fields) = Entries.keys fields := by
  induction fields with
  | nil => rfl
  | cons field fields ih => simp [ofFields, ih]

@[simp] theorem keys_entriesToJson (entries : List (String × Value)) :
    Entries.keys (entriesToJson entries) = Entries.keys entries := by
  induction entries with
  | nil => rfl
  | cons entry entries ih => simp [entriesToJson, ih]

end Value

end StateText
