import StateText.Entries
import StateText.Number

/-!
# JSON documents

A document holds its numbers exactly and lists the members of an object by name. `ofPairs` is the
object of pairs read from a text: in name order, and the last of several values under one name.
-/

namespace StateText

inductive Json where
  | null
  | bool (b : Bool)
  | number (n : Number)
  | string (s : String)
  | array (items : List Json)
  | object (fields : List (String × Json))

namespace Json

def ofPairs (pairs : List (String × Json)) : Json := object (Entries.sorted (Entries.ofPairs pairs))

def isNull : Json → Bool
  | null => true
  | _ => false

def asString? : Json → Option String
  | string s => some s
  | _ => none

def kind : Json → String
  | null => "null"
  | bool _ => "bool"
  | number _ => "number"
  | string _ => "string"
  | array _ => "array"
  | object _ => "object"

mutual

def same : Json → Json → Bool
  | null, null => true
  | bool a, bool b => a == b
  | number a, number b => decide (a = b)
  | string a, string b => a == b
  | array as, array bs => sameItems as bs
  | object as, object bs => sameFields as bs
  | _, _ => false

def sameItems : List Json → List Json → Bool
  | [], [] => true
  | a :: as, b :: bs => same a b && sameItems as bs
  | _, _ => false

def sameFields : List (String × Json) → List (String × Json) → Bool
  | [], [] => true
  | (k, a) :: as, (k', b) :: bs => k == k' && same a b && sameFields as bs
  | _, _ => false

end

mutual

theorem same_iff : ∀ {a b : Json}, same a b ↔ a = b
  | null, b => by cases b <;> simp [same]
  | bool _, b => by cases b <;> simp [same]
  | number _, b => by cases b <;> simp [same]
  | string _, b => by cases b <;> simp [same]
  | array as, b => by cases b <;> simp [same, sameItems_iff]
  | object as, b => by cases b <;> simp [same, sameFields_iff]

theorem sameItems_iff : ∀ {as bs : List Json}, sameItems as bs ↔ as = bs
  | [], bs => by cases bs <;> simp [sameItems]
  | a :: as, bs => by cases bs <;> simp [sameItems, same_iff, sameItems_iff]

theorem sameFields_iff : ∀ {as bs : List (String × Json)}, sameFields as bs ↔ as = bs
  | [], bs => by cases bs <;> simp [sameFields]
  | (k, a) :: as, bs => by
    cases bs <;> simp [sameFields, same_iff, sameFields_iff, Prod.ext_iff]

end

instance : DecidableEq Json := fun _ _ => decidable_of_iff _ same_iff

end Json

end StateText
