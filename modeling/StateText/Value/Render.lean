import StateText.Value.Literal
import StateText.Text.Lines
import StateText.Value

/-!
# Rendering a value

A value is written from some column on; what it holds stands one level deeper, a line each, and its
closing bracket in that column again. Entries are written in the order of their names. The null
fields of an object are left out, the null entries of a map are not.
-/

namespace StateText

namespace Render

def level : Nat := 4

def itemLines (inner : Nat) : List (List Char) → List Char
  | [] => []
  | [item] => Text.spaces inner ++ item ++ ['\n']
  | item :: next :: items =>
    Text.spaces inner ++ item ++ ',' :: '\n' :: itemLines inner (next :: items)

@[simp] theorem itemLines_nil (inner : Nat) : itemLines inner [] = [] := rfl

theorem itemLines_cons (inner : Nat) (item : List Char) (items : List (List Char)) :
    itemLines inner (item :: items) = Text.spaces inner ++
      (item ++ ((if items = [] then [] else [',']) ++ '\n' :: itemLines inner items)) := by
  cases items <;> simp [itemLines]

def bracketed (opening closing : Char) (indent : Nat) (items : List (List Char)) : List Char :=
  if items = [] then [opening, closing]
  else opening :: '\n' :: itemLines (indent + level) items ++ Text.spaces indent ++ [closing]

@[simp] theorem bracketed_nil (opening closing : Char) (indent : Nat) :
    bracketed opening closing indent [] = [opening, closing] := rfl

def assignment (entry : String × List Char) : List Char :=
  Literal.key entry.1 ++ ' ' :: '=' :: ' ' :: entry.2

def braced (indent : Nat) (entries : Entries String (List Char)) : List Char :=
  bracketed '\x7b' '\x7d' indent ((Entries.sorted entries).map assignment)

end Render

namespace Value

open Render

mutual

def chars : Value → (indent : Nat) → List Char
  | null, _ => "null".toList
  | string s, _ => Literal.string s
  | number n, _ => Literal.number n
  | bool true, _ => "true".toList
  | bool false, _ => "false".toList
  | list items, indent => bracketed '[' ']' indent (itemChars items (indent + level))
  | set items, indent => bracketed '[' ']' indent (itemChars items (indent + level))
  | tuple items, indent => bracketed '[' ']' indent (itemChars items (indent + level))
  | map entries, indent => braced indent (entryChars entries (indent + level))
  | object fields, indent => braced indent (fieldChars fields (indent + level))

def itemChars : List Value → (indent : Nat) → List (List Char)
  | [], _ => []
  | item :: items, indent => chars item indent :: itemChars items indent

def entryChars : List (String × Value) → (indent : Nat) → Entries String (List Char)
  | [], _ => []
  | (name, v) :: entries, indent => (name, chars v indent) :: entryChars entries indent

def fieldChars : List (String × Value) → (indent : Nat) → Entries String (List Char)
  | [], _ => []
  | (name, v) :: fields, indent =>
    if v.isNull then fieldChars fields indent
    else (name, chars v indent) :: fieldChars fields indent

end

def written (fields : List (String × Value)) : List (String × Value) :=
  fields.filter fun e => !e.2.isNull

theorem itemChars_eq_map (items : List Value) (indent : Nat) :
    itemChars items indent = items.map fun item => item.chars indent := by
  induction items with
  | nil => rfl
  | cons item items ih => rw [itemChars, ih, List.map_cons]

theorem entryChars_eq_map (entries : List (String × Value)) (indent : Nat) :
    entryChars entries indent = entries.map fun e => (e.1, e.2.chars indent) := by
  induction entries with
  | nil => rfl
  | cons e entries ih => rw [entryChars, ih, List.map_cons]

theorem fieldChars_eq_map (fields : List (String × Value)) (indent : Nat) :
    fieldChars fields indent = (written fields).map fun e => (e.1, e.2.chars indent) := by
  unfold written
  induction fields with
  | nil => rfl
  | cons e fields ih =>
    rw [fieldChars, ih]
    cases h : e.2.isNull <;> simp [h]

def render (v : Value) (indent : Nat) : String := String.ofList (v.chars indent)

theorem toList_render (v : Value) (indent : Nat) : (v.render indent).toList = v.chars indent :=
  String.toList_ofList

end Value

end StateText
