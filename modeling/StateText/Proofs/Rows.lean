import StateText.Proofs.Normal

/-!
# Rows

A collection writes the values that it holds between its brackets, a row for each of them: items as
they are, entries behind their names. Every other value is written without brackets and alike in
all columns. `rows_induction` goes through a value along its rows.
-/

namespace StateText.Value

open Render

def brackets? : Value → Option (Char × Char)
  | list _ => some ('[', ']')
  | set _ => some ('[', ']')
  | tuple _ => some ('[', ']')
  | map _ => some ('\x7b', '\x7d')
  | object _ => some ('\x7b', '\x7d')
  | _ => none

def label (name : String) : List Char := Literal.key name ++ " = ".toList

def itemRows (items : List Value) : List (List Char × Value) := items.map fun v => ([], v)

def entryRows (entries : List (String × Value)) : List (List Char × Value) :=
  (Entries.sorted entries).map fun e => (label e.1, e.2)

/-- The values that are written between the brackets, each with the label in front of it. -/
def rows : Value → List (List Char × Value)
  | list items => itemRows items
  | set items => itemRows items
  | tuple items => itemRows items
  | map entries => entryRows entries
  | object fields => entryRows (written fields)
  | _ => []

/-- What a collection holds, the null fields of an object left out. -/
def elements : Value → List Value
  | list items => items
  | set items => items
  | tuple items => items
  | map entries => entries.map Prod.snd
  | object fields => (written fields).map Prod.snd
  | _ => []

variable {v : Value} {r : List Char × Value}

/-- A value has no brackets, or those of a sequence, or those of a mapping. -/
theorem forms (v : Value) :
    (v.brackets? = none ∧ v.rows = [] ∧ v.elements = []) ∨
      (∃ items, v.brackets? = some ('[', ']') ∧ v.rows = itemRows items ∧ v.elements = items) ∨
        ∃ entries, v.brackets? = some ('\x7b', '\x7d') ∧ v.rows = entryRows entries ∧
          v.elements = entries.map Prod.snd := by
  cases v with
  | list items => exact .inr (.inl ⟨items, rfl, rfl, rfl⟩)
  | set items => exact .inr (.inl ⟨items, rfl, rfl, rfl⟩)
  | tuple items => exact .inr (.inl ⟨items, rfl, rfl, rfl⟩)
  | map entries => exact .inr (.inr ⟨entries, rfl, rfl, rfl⟩)
  | object fields => exact .inr (.inr ⟨written fields, rfl, rfl, rfl⟩)
  | _ => exact .inl ⟨rfl, rfl, rfl⟩

theorem map_snd_rows_perm (v : Value) : (v.rows.map Prod.snd).Perm v.elements := by
  rcases v.forms with ⟨_, hrows, helements⟩ | ⟨items, _, hrows, helements⟩ |
    ⟨entries, _, hrows, helements⟩
  · rw [hrows, helements]
    exact .refl []
  · rw [hrows, helements, itemRows, List.map_map]
    exact .of_eq (List.map_id items)
  · rw [hrows, helements, entryRows, List.map_map]
    exact (Entries.sortBy_perm _ entries).map Prod.snd

theorem exists_row_of_mem_elements {w : Value} (hw : w ∈ v.elements) : ∃ r ∈ v.rows, r.2 = w :=
  List.mem_map.1 ((map_snd_rows_perm v).mem_iff.2 hw)

theorem mem_elements_of_mem_rows (hr : r ∈ v.rows) : r.2 ∈ v.elements :=
  (map_snd_rows_perm v).mem_iff.1 (List.mem_map_of_mem hr)

theorem rows_eq_nil_iff : v.rows = [] ↔ v.elements = [] := by
  have hlength : v.rows.length = v.elements.length := by
    rw [← (map_snd_rows_perm v).length_eq, List.length_map]
  rw [← List.length_eq_zero_iff, hlength, List.length_eq_zero_iff]

theorem label_of_mem_rows (hr : r ∈ v.rows) : r.1 = [] ∨ ∃ name, r.1 = label name := by
  rcases v.forms with ⟨_, hrows, _⟩ | ⟨items, _, hrows, _⟩ | ⟨entries, _, hrows, _⟩
  · rw [hrows] at hr
    exact absurd hr List.not_mem_nil
  · rw [hrows] at hr
    obtain ⟨_, _, rfl⟩ := List.mem_map.1 hr
    exact .inl rfl
  · rw [hrows] at hr
    obtain ⟨e, _, rfl⟩ := List.mem_map.1 hr
    exact .inr ⟨e.1, rfl⟩

theorem exists_brackets_of_mem_rows (hr : r ∈ v.rows) :
    ∃ opening closing, v.brackets? = some (opening, closing) := by
  rcases v.forms with ⟨_, hrows, _⟩ | ⟨_, hbrackets, _⟩ | ⟨_, hbrackets, _⟩
  · rw [hrows] at hr
    exact absurd hr List.not_mem_nil
  · exact ⟨_, _, hbrackets⟩
  · exact ⟨_, _, hbrackets⟩

theorem brackets?_cases {opening closing : Char} (h : v.brackets? = some (opening, closing)) :
    (opening = '[' ∧ closing = ']') ∨ (opening = '\x7b' ∧ closing = '\x7d') := by
  rcases v.forms with ⟨hbrackets, _⟩ | ⟨_, hbrackets, _⟩ | ⟨_, hbrackets, _⟩
  · cases hbrackets.symm.trans h
  · cases hbrackets.symm.trans h
    exact .inl ⟨rfl, rfl⟩
  · cases hbrackets.symm.trans h
    exact .inr ⟨rfl, rfl⟩

theorem sizeOf_lt_of_mem_elements {w : Value} (hw : w ∈ v.elements) : sizeOf w < sizeOf v := by
  have hentry {entries : List (String × Value)} {e : String × Value} (he : e ∈ entries) :
      sizeOf e.2 < sizeOf entries := by
    have hlt := List.sizeOf_lt_of_mem he
    obtain ⟨name, u⟩ := e
    rw [Prod.mk.sizeOf_spec] at hlt
    dsimp only
    omega
  cases v with
  | list items =>
    rw [list.sizeOf_spec]
    exact Nat.lt_add_left 1 (List.sizeOf_lt_of_mem hw)
  | set items =>
    rw [set.sizeOf_spec]
    exact Nat.lt_add_left 1 (List.sizeOf_lt_of_mem hw)
  | tuple items =>
    rw [tuple.sizeOf_spec]
    exact Nat.lt_add_left 1 (List.sizeOf_lt_of_mem hw)
  | map entries =>
    obtain ⟨e, he, rfl⟩ := List.mem_map.1 hw
    rw [map.sizeOf_spec]
    exact Nat.lt_add_left 1 (hentry he)
  | object fields =>
    obtain ⟨e, he, rfl⟩ := List.mem_map.1 hw
    rw [object.sizeOf_spec]
    exact Nat.lt_add_left 1 (hentry (List.mem_filter.1 he).1)
  | _ => exact absurd hw List.not_mem_nil

/-- What holds of a value without brackets, and of a collection if it holds of its rows. -/
theorem rows_induction {motive : Value → Prop}
    (scalar : ∀ v, v.brackets? = none → motive v)
    (collection : ∀ v opening closing, v.brackets? = some (opening, closing) →
      (∀ r ∈ v.rows, motive r.2) → motive v) (v : Value) : motive v := by
  cases h : v.brackets? with
  | none => exact scalar v h
  | some b =>
    exact collection v b.1 b.2 h fun r hr => rows_induction scalar collection r.2
termination_by sizeOf v
decreasing_by exact sizeOf_lt_of_mem_elements (mem_elements_of_mem_rows hr)

theorem itemChars_eq_rows (items : List Value) (indent : Nat) :
    itemChars items indent = (itemRows items).map fun r => r.1 ++ r.2.chars indent := by
  rw [itemChars_eq_map, itemRows, List.map_map]
  rfl

theorem braced_eq_rows (entries : List (String × Value)) (indent inner : Nat) :
    braced indent (entries.map fun e => (e.1, e.2.chars inner)) =
      bracketed '\x7b' '\x7d' indent
        ((entryRows entries).map fun r => r.1 ++ r.2.chars inner) := by
  rw [braced_eq, entryRows, List.map_map]
  congr 1
  refine List.map_congr_left fun e _ => ?_
  simp [assignment, label]

theorem chars_eq_bracketed {opening closing : Char} (h : v.brackets? = some (opening, closing))
    (indent : Nat) : v.chars indent = bracketed opening closing indent
      (v.rows.map fun r => r.1 ++ r.2.chars (indent + level)) := by
  cases v with
  | list items =>
    cases h
    rw [chars, itemChars_eq_rows, rows]
  | set items =>
    cases h
    rw [chars, itemChars_eq_rows, rows]
  | tuple items =>
    cases h
    rw [chars, itemChars_eq_rows, rows]
  | map entries =>
    cases h
    rw [chars, entryChars_eq_map, braced_eq_rows, rows]
  | object fields =>
    cases h
    rw [chars, fieldChars_eq_map, braced_eq_rows, rows]
  | _ => cases h

/-- Words, strings and numbers are written alike in all columns. -/
theorem chars_of_brackets?_eq_none (h : v.brackets? = none) (a b : Nat) :
    v.chars a = v.chars b := by
  cases v with
  | bool b => cases b <;> rfl
  | null => rfl
  | string s => rfl
  | number n => rfl
  | _ => cases h

end StateText.Value
