import StateText.Value.Render

/-!
# Normal forms

What the text of a value tells about it: lists, sets and tuples are one kind of sequence, maps and
objects without their null fields one kind of mapping, listed by name, and a number is how it is
written.
-/

namespace StateText

inductive Normal where
  | null
  | string (s : String)
  | number (literal : List Char)
  | bool (b : Bool)
  | sequence (items : List Normal)
  | mapping (entries : List (String × Normal))

namespace Value

mutual

def normal : Value → Normal
  | null => .null
  | string s => .string s
  | number n => .number (Literal.number n)
  | bool b => .bool b
  | list items => .sequence (normalItems items)
  | set items => .sequence (normalItems items)
  | tuple items => .sequence (normalItems items)
  | map entries => .mapping (Entries.sorted (normalEntries entries))
  | object fields => .mapping (Entries.sorted (normalFields fields))

def normalItems : List Value → List Normal
  | [] => []
  | item :: items => normal item :: normalItems items

def normalEntries : List (String × Value) → List (String × Normal)
  | [] => []
  | (name, v) :: entries => (name, normal v) :: normalEntries entries

def normalFields : List (String × Value) → List (String × Normal)
  | [] => []
  | (name, v) :: fields =>
    if v.isNull then normalFields fields else (name, normal v) :: normalFields fields

end

theorem normalItems_eq_map (items : List Value) : normalItems items = items.map normal := by
  induction items with
  | nil => rfl
  | cons item items ih => rw [normalItems, ih, List.map_cons]

theorem normalEntries_eq_map (entries : List (String × Value)) :
    normalEntries entries = entries.map fun e => (e.1, e.2.normal) := by
  induction entries with
  | nil => rfl
  | cons e entries ih => rw [normalEntries, ih, List.map_cons]

theorem normalFields_eq_map (fields : List (String × Value)) :
    normalFields fields = (written fields).map fun e => (e.1, e.2.normal) := by
  unfold written
  induction fields with
  | nil => rfl
  | cons e fields ih =>
    rw [normalFields, ih]
    cases h : e.2.isNull <;> simp [h]

/-- What stands between the braces of a map or an object, in order. -/
theorem braced_eq (entries : List (String × Value)) (indent inner : Nat) :
    Render.braced indent (entries.map fun e => (e.1, e.2.chars inner)) =
      Render.bracketed '\x7b' '\x7d' indent ((Entries.sorted entries).map fun e =>
        Render.assignment (e.1, e.2.chars inner)) := by
  rw [Render.braced, Entries.sorted_map fun v : Value => v.chars inner, List.map_map]
  rfl

theorem normal_entries (entries : List (String × Value)) :
    Entries.sorted (entries.map fun e => (e.1, e.2.normal)) =
      (Entries.sorted entries).map fun e => (e.1, e.2.normal) :=
  Entries.sorted_map normal entries

end Value

end StateText
