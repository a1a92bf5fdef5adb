import StateText.Proofs.ValueReader

/-!
# Normal forms as text

A value is written as its normal form is, and it is read back as its normal form. So `read_render`
says of one reader that it tells what was written, and of two values that they have one text
exactly when they have one normal form.
-/

namespace StateText

namespace Normal

open Render

mutual

def chars : Normal → (indent : Nat) → List Char
  | null, _ => "null".toList
  | string s, _ => Literal.string s
  | number literal, _ => literal
  | bool true, _ => "true".toList
  | bool false, _ => "false".toList
  | sequence items, indent => bracketed '[' ']' indent (itemChars items (indent + level))
  | mapping entries, indent =>
    bracketed '\x7b' '\x7d' indent ((entryChars entries (indent + level)).map assignment)

def itemChars : List Normal → (indent : Nat) → List (List Char)
  | [], _ => []
  | item :: items, indent => chars item indent :: itemChars items indent

def entryChars : List (String × Normal) → (indent : Nat) → Entries String (List Char)
  | [], _ => []
  | (name, n) :: entries, indent => (name, chars n indent) :: entryChars entries indent

end

theorem entryChars_eq_map (entries : List (String × Normal)) (indent : Nat) :
    entryChars entries indent = entries.map fun e => (e.1, e.2.chars indent) := by
  induction entries with
  | nil => rfl
  | cons e entries ih => rw [entryChars, ih, List.map_cons]

theorem entryChars_sorted (entries : List (String × Normal)) (indent : Nat) :
    entryChars (Entries.sorted entries) indent = Entries.sorted (entryChars entries indent) := by
  rw [entryChars_eq_map, entryChars_eq_map, Entries.sorted_map fun n : Normal => n.chars indent]

end Normal

namespace Value

mutual

theorem chars_normal : ∀ (v : Value) (indent : Nat), v.normal.chars indent = v.chars indent
  | null, _ => rfl
  | string _, _ => rfl
  | number _, _ => rfl
  | bool true, _ => rfl
  | bool false, _ => rfl
  | list items, indent => by rw [normal, Normal.chars, itemChars_normalItems items, chars]
  | set items, indent => by rw [normal, Normal.chars, itemChars_normalItems items, chars]
  | tuple items, indent => by rw [normal, Normal.chars, itemChars_normalItems items, chars]
  | map entries, indent => by
    rw [normal, Normal.chars, Normal.entryChars_sorted, entryChars_normalEntries entries, chars,
      Render.braced]
  | object fields, indent => by
    rw [normal, Normal.chars, Normal.entryChars_sorted, entryChars_normalFields fields, chars,
      Render.braced]

theorem itemChars_normalItems : ∀ (items : List Value) (indent : Nat),
    Normal.itemChars (normalItems items) indent = itemChars items indent
  | [], _ => rfl
  | item :: items, indent => by
    rw [normalItems, Normal.itemChars, chars_normal item, itemChars_normalItems items, itemChars]

theorem entryChars_normalEntries : ∀ (entries : List (String × Value)) (indent : Nat),
    Normal.entryChars (normalEntries entries) indent = entryChars entries indent
  | [], _ => rfl
  | (name, v) :: entries, indent => by
    rw [normalEntries, Normal.entryChars, chars_normal v, entryChars_normalEntries entries,
      entryChars]

theorem entryChars_normalFields : ∀ (fields : List (String × Value)) (indent : Nat),
    Normal.entryChars (normalFields fields) indent = fieldChars fields indent
  | [], _ => rfl
  | (name, v) :: fields, indent => by
    rw [normalFields, fieldChars]
    split_ifs
    · exact entryChars_normalFields fields indent
    · rw [Normal.entryChars, chars_normal v, entryChars_normalFields fields]

end

theorem normal_eq_of_render_eq {v v' : Value} {indent : Nat}
    (h : v.render indent = v'.render indent) : v.normal = v'.normal := by
  have hchars : v.chars indent = v'.chars indent := by
    rw [← toList_render, h, toList_render]
  have hnone : Normal.Follows [] := fun _ hc => absurd hc (by simp)
  have hread := v.read_chars indent hnone
  rw [hchars, v'.read_chars indent hnone] at hread
  exact (Prod.mk.inj (Option.some.inj hread)).1.symm

/-- A written value is read back as its normal form wherever it stands, and what follows is left.
Two values are written alike at some indent if and only if they have the same normal form. -/
theorem read_render :
    (∀ (v : Value) (indent : Nat) (t : List Char), Normal.Follows t →
      Normal.read ((v.render indent).toList ++ t) = some (v.normal, t)) ∧
    ∀ (v v' : Value) (indent : Nat),
      v.render indent = v'.render indent ↔ v.normal = v'.normal := by
  constructor
  · intro v indent t ht
    rw [toList_render, v.read_chars indent ht]
  · intro v v' indent
    refine ⟨normal_eq_of_render_eq, fun h => ?_⟩
    rw [render, ← chars_normal, h, chars_normal, render]

/-- A list in an object, with a field that is not written, and more behind it. -/
theorem read_render_nested :
    let v : Value := .object [("b c", .list [.string "$\x7b\n", .bool true]), ("a", .null)]
    let t := ",\n]".toList
    Normal.Follows t ∧ Normal.read ((v.render 2).toList ++ t) =
      some (.mapping [("b c", .sequence [.string "$\x7b\n", .bool true])], t) := by
  intro v t
  have ht : Normal.Follows t := Normal.follows_comma _
  exact ⟨ht, read_render.1 v 2 t ht⟩

end Value

end StateText
