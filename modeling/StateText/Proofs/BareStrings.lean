import StateText.Proofs.PlainBrackets

/-!
# Bare strings

A list under its name has the layout of a rendered value. `charsWith` renders a value with its
strings written as it is told; `list_eq_charsWith` says that a named list is the rendering in which
they are written bare.
-/

namespace StateText

namespace Value

open Render

def scalarWith (leaf : String → List Char) : Value → List Char
  | string s => leaf s
  | v => v.chars 0

/-- The text of a value whose strings are written by `leaf`. -/
def charsWith (leaf : String → List Char) (v : Value) (indent : Nat) : List Char :=
  match v.brackets? with
  | some (opening, closing) =>
    bracketed opening closing indent
      (v.rows.attach.map fun r => r.1.1 ++ r.1.2.charsWith leaf (indent + level))
  | none => v.scalarWith leaf
termination_by sizeOf v
decreasing_by exact sizeOf_lt_of_mem_elements (mem_elements_of_mem_rows r.2)

variable {leaf : String → List Char} {v : Value}

theorem charsWith_collection {opening closing : Char}
    (h : v.brackets? = some (opening, closing)) (indent : Nat) :
    v.charsWith leaf indent = bracketed opening closing indent
      (v.rows.map fun r => r.1 ++ r.2.charsWith leaf (indent + level)) := by
  let row (r : List Char × Value) : List Char := r.1 ++ r.2.charsWith leaf (indent + level)
  have hrows : (v.rows.attach.map fun r => row r.1) = v.rows.map row := List.attach_map_val
  rw [charsWith, h]
  exact congrArg (bracketed opening closing indent) hrows

theorem charsWith_scalar (h : v.brackets? = none) (indent : Nat) :
    v.charsWith leaf indent = v.scalarWith leaf := by
  rw [charsWith, h]

/-- Nothing but the strings is written in another way. -/
theorem charsWith_literal (v : Value) (indent : Nat) :
    v.charsWith Literal.string indent = v.chars indent := by
  induction v using rows_induction generalizing indent with
  | scalar v hv =>
    rw [charsWith_scalar hv, chars_of_brackets?_eq_none hv indent 0]
    cases v <;> rfl
  | collection v opening closing hv ih =>
    rw [charsWith_collection hv, chars_eq_bracketed hv]
    congr 1
    exact List.map_congr_left fun r hr => by rw [ih r hr]

theorem label_of_isIdentifier {name : String} (h : Literal.isIdentifier name.toList = true) :
    label name = name.toList ++ " = ".toList := by
  rw [label, Literal.key, Literal.keyChars, if_pos h]

end Value

namespace Plain

open Render

variable {j : Json} {name : List Char} {items : List Json}

inductive IsLeaf : Json → Prop
  | string (s : String) : IsLeaf (.string s)
  | bool (b : Bool) : IsLeaf (.bool b)
  | number {n : Number} (integer : n.isInteger = true) : IsLeaf (.number n)

/-- A string, or a list or map of leaves under names that need no quotes. -/
inductive IsRow : Json → Prop
  | string (s : String) : IsRow (.string s)
  | array {items : List Json} (each : ∀ j ∈ items, IsLeaf j) : IsRow (.array items)
  | object {entries : List (String × Json)}
      (each : ∀ e ∈ entries, Literal.isIdentifier e.1.toList = true ∧ IsLeaf e.2) :
      IsRow (.object entries)

theorem IsRow.isShown (h : IsRow j) : IsShown j := by
  cases h <;> trivial

theorem IsLeaf.charsWith_eq (h : IsLeaf j) (indent : Nat) :
    (Value.ofJson j).charsWith String.toList indent = inline j := by
  cases h with
  | string s => rw [Value.ofJson, Value.charsWith_scalar rfl, Value.scalarWith, inline]
  | bool b => cases b <;> rw [Value.ofJson, Value.charsWith_scalar rfl] <;> rfl
  | @number n integer =>
    rw [Value.ofJson, Value.charsWith_scalar rfl]
    cases n with
    | float x => cases integer
    | _ => rfl

theorem IsLeaf.isNull_eq (h : IsLeaf j) : (Value.ofJson j).isNull = false := by
  cases h <;> rfl

theorem IsRow.charsWith_eq (h : IsRow j) (column : Nat) :
    (Value.ofJson j).charsWith String.toList column = elementText 0 column j := by
  cases h with
  | string s =>
    rw [Value.ofJson, Value.charsWith_scalar rfl]
    rfl
  | @array items each =>
    rw [Value.ofJson, Value.charsWith_collection rfl, Value.rows, Value.itemRows,
      Value.ofItems_eq_map, List.map_map, List.map_map]
    refine congrArg (bracketed '[' ']' column) (List.map_congr_left fun j hj => ?_)
    exact (each j hj).charsWith_eq _
  | @object entries each =>
    have hwritten : Value.written (Value.ofFields entries) =
        entries.map fun e => (e.1, Value.ofJson e.2) := by
      rw [Value.written, Value.ofFields_eq_map, List.filter_eq_self]
      intro e he
      obtain ⟨d, hd, rfl⟩ := List.mem_map.1 he
      simp [(each d hd).2.isNull_eq]
    rw [Value.ofJson, Value.charsWith_collection rfl, Value.rows, Value.entryRows, hwritten,
      Entries.sorted_map Value.ofJson, List.map_map, List.map_map]
    refine congrArg (bracketed '\x7b' '\x7d' column) (List.map_congr_left fun e he => ?_)
    obtain ⟨hkey, hleaf⟩ := each e (Entries.mem_sortBy.1 he)
    simp only [Function.comp_apply, Value.label_of_isIdentifier hkey, hleaf.charsWith_eq,
      assignment, List.append_assoc]
    rfl

/-- A list of strings, and of lists and maps of leaves, has under its name the layout of the
rendered value, its strings bare. Of the name, a line feed in front is lost. -/
theorem list_eq_charsWith (hne : name ≠ []) (h : ∀ j ∈ items, IsRow j) :
    (∀ indent, (Value.ofJson (.array items)).charsWith Literal.string indent =
        ((Value.ofJson (.array items)).render indent).toList) ∧
      list [] name items = startLine name ++ (" = ".toList ++
        (Value.ofJson (.array items)).charsWith String.toList 0) := by
  refine ⟨fun indent => ?_, ?_⟩
  · rw [Value.charsWith_literal, Value.toList_render]
  · have hlist := list_named hne (fun j hj => (h j hj).isShown) 0
    rw [Text.spaces_zero, List.nil_append, startLine_append hne] at hlist
    rw [hlist, Value.ofJson, Value.charsWith_collection rfl, Value.rows, Value.itemRows,
      Value.ofItems_eq_map, List.map_map, List.map_map]
    refine congrArg (fun cs => startLine name ++ (" = ".toList ++ cs)) ?_
    refine congrArg (bracketed '[' ']' 0) (List.map_congr_left fun j hj => ?_)
    exact ((h j hj).charsWith_eq _).symm

/-- Strings with quotes and line feeds, in a list and in a map. -/
theorem list_eq_charsWith_rows :
    let items : List Json := [.array [.string "a\n", .bool true],
      .object [("b", .string "\""), ("a", .number (.natural 1 (by decide)))], .string ""]
    "rows".toList ≠ [] ∧ (∀ j ∈ items, IsRow j) ∧
      list [] "rows".toList items = "rows".toList ++ (" = ".toList ++
        (Value.ofJson (.array items)).charsWith String.toList 0) := by
  intro items
  have hrows : ∀ j ∈ items, IsRow j := by
    have hnumber : IsLeaf (.number (.natural 1 (by decide))) := .number rfl
    simp only [items, List.forall_mem_cons]
    refine ⟨.array ?_, .object ?_, .string _, by simp⟩
    · simp only [List.forall_mem_cons]
      exact ⟨.string _, .bool _, by simp⟩
    · simp only [List.forall_mem_cons]
      exact ⟨⟨by decide, .string _⟩, ⟨by decide, hnumber⟩, by simp⟩
  have hname : "rows".toList ≠ [] := by decide
  exact ⟨hname, hrows, (list_eq_charsWith hname hrows).2⟩

/-- A name that starts with a line feed is not written as it is. -/
theorem list_loses_lineFeed :
    list [] "\nx".toList [] = "x = []".toList ∧
      list [] "\nx".toList [] ≠ "\nx".toList ++ (" = ".toList ++
        (Value.ofJson (.array [])).charsWith String.toList 0) := by
  rw [Value.ofJson, Value.charsWith_collection rfl]
  decide

end Plain

end StateText
