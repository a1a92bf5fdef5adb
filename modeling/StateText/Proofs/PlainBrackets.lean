import StateText.Plain
import StateText.Proofs.Shifted

/-!
# Brackets of the plain layout

The plain layout puts its line feeds in front of the items, the rendering of values behind them. In
columns made of blanks the two write the same brackets: `nestedList_eq`, `nestedMap_eq` and, for a
list under its name, `list_named` say so. A map under its name has braces of its own: `map_named`.
-/

namespace StateText

namespace Render

open Text

def itemBelow (inner : Nat) (item : List Char) : List Char := '\n' :: (spaces inner ++ item)

theorem lineFeed_itemLines (inner : Nat) {items : List (List Char)} (h : items ≠ []) :
    '\n' :: itemLines inner items =
      Json.commaSeparated (items.map (itemBelow inner)) ++ ['\n'] := by
  induction items with
  | nil => exact absurd rfl h
  | cons item items ih =>
    cases items with
    | nil => simp [itemLines, itemBelow, Json.commaSeparated]
    | cons next items =>
      have hrest := ih (List.cons_ne_nil next items)
      rw [itemLines, hrest]
      simp only [List.map_cons, Json.commaSeparated_cons_cons, itemBelow, List.cons_append,
        List.append_assoc]

theorem bracketed_eq {opening closing : Char} (indent : Nat) {items : List (List Char)}
    (h : items ≠ []) : bracketed opening closing indent items =
      opening :: (Json.commaSeparated (items.map (itemBelow (indent + level))) ++
        '\n' :: (spaces indent ++ [closing])) := by
  have hlines := lineFeed_itemLines (indent + level) h
  rw [bracketed, if_neg h, List.append_assoc, List.cons_append, ← List.cons_append, hlines]
  simp only [List.append_assoc, List.cons_append, List.nil_append]

end Render

namespace Plain

open Text Render

variable {name : List Char} {items : List Json} {j : Json}

theorem startLine_of_head? {cs : List Char} (h : cs.head? ≠ some '\n') : startLine cs = cs := by
  unfold startLine
  split
  · exact absurd rfl h
  · rfl

theorem startLine_append (hne : name ≠ []) (cs : List Char) :
    startLine (name ++ cs) = startLine name ++ cs := by
  obtain ⟨c, name, rfl⟩ := List.exists_cons_of_ne_nil hne
  by_cases hc : c = '\n'
  · rw [hc]
    rfl
  · have hhead : (c :: name).head? ≠ some '\n' := by simpa using hc
    rw [startLine_of_head? hhead, startLine_of_head? (by simpa using hc)]

theorem startLine_spaces (width : Nat) {c : Char} (hc : c ≠ '\n') (cs : List Char) :
    startLine (spaces width ++ c :: cs) = spaces width ++ c :: cs := by
  apply startLine_of_head?
  cases width with
  | zero => simpa using hc
  | succ width => simp [spaces, List.replicate_succ]

/-! ### What stands in an element -/

theorem nestedList_eq (indent : Nat) (items : List Json) :
    nestedList (spaces indent) items =
      spaces indent ++ bracketed '[' ']' indent (items.map inline) := by
  unfold nestedList
  split_ifs with h
  · rw [h, List.map_nil, bracketed_nil]
  · have hne : items.map inline ≠ [] := mt List.map_eq_nil_iff.1 h
    rw [bracketed_eq indent hne, List.map_map, List.append_assoc, List.append_assoc,
      List.cons_append, startLine_spaces indent (by decide)]
    simp only [Function.comp_def, itemBelow, elementIndent, spaces_append, List.cons_append]

theorem assignments_ne_nil {entries : Entries String Json} (h : entries ≠ []) :
    (Entries.sorted entries).map assignment ≠ [] :=
  mt List.map_eq_nil_iff.1 (mt Entries.sorted_eq_nil_iff.1 h)

theorem nestedMap_eq (indent : Nat) (entries : Entries String Json) :
    nestedMap (spaces indent) entries =
      spaces indent ++ bracketed '\x7b' '\x7d' indent
        ((Entries.sorted entries).map assignment) := by
  unfold nestedMap
  split_ifs with h
  · rw [h]
    rfl
  · rw [bracketed_eq indent (assignments_ne_nil h), List.map_map, List.append_assoc,
      List.append_assoc, List.cons_append, startLine_spaces indent (by decide)]
    simp only [Function.comp_def, itemBelow, elementIndent, spaces_append, List.cons_append]

/-! ### Elements -/

def IsShown : Json → Prop
  | .string _ | .array _ | .object _ => True
  | _ => False

/-- What an element shows from its column on. What is nested stands behind `extra` more blanks. -/
def elementText (extra column : Nat) : Json → List Char
  | .string s => s.toList
  | .array items => spaces extra ++ bracketed '[' ']' column (items.map inline)
  | .object entries =>
    spaces extra ++ bracketed '\x7b' '\x7d' column ((Entries.sorted entries).map assignment)
  | _ => []

theorem element_eq (h : IsShown j) (extra column : Nat) :
    element (spaces extra) (spaces column) j = itemBelow column (elementText extra column j) := by
  -- the extra blanks of a list and the column of what is nested in it meet on the first line
  have hcomm (cs : List Char) : spaces extra ++ (spaces column ++ cs) =
      spaces column ++ (spaces extra ++ cs) := by
    rw [← List.append_assoc, spaces_append, Nat.add_comm, ← spaces_append, List.append_assoc]
  cases j with
  | string s => rfl
  | array items =>
    rw [element, nestedList_eq, List.cons_append, hcomm]
    rfl
  | object entries =>
    rw [element, nestedMap_eq, List.cons_append, hcomm]
    rfl
  | _ => exact h.elim

theorem map_element_eq (h : ∀ j ∈ items, IsShown j) (extra column : Nat) :
    items.map (element (spaces extra) (spaces column)) =
      (items.map (elementText extra column)).map (itemBelow column) := by
  rw [List.map_map]
  exact List.map_congr_left fun j hj => element_eq (h j hj) extra column

/-- A list under its name is an assignment of brackets. If the name starts with a line feed, that is
left out where there is no indentation. -/
theorem list_named (hne : name ≠ []) (h : ∀ j ∈ items, IsShown j) (indent : Nat) :
    list (spaces indent) name items =
      startLine (spaces indent ++ (name ++ (" = ".toList ++
        bracketed '[' ']' indent (items.map (elementText indent (indent + level)))))) := by
  rw [list, if_neg hne, elementIndent, spaces_append, map_element_eq h]
  by_cases hnil : items = []
  · simp [hnil, Json.commaSeparated]
  · have hne' : items.map (elementText indent (indent + level)) ≠ [] :=
      mt List.map_eq_nil_iff.1 hnil
    rw [if_neg hnil, bracketed_eq indent hne']
    simp

def bracedLines (indent : Nat) (lines : List (List Char)) : List Char :=
  '\x7b' :: (linesBehind (spaces (indent + 2)) lines ++
    ((if lines = [] then [] else '\n' :: spaces indent) ++ ['\x7d']))

/-- A map under its name is an assignment of braces. -/
theorem map_named (hne : name ≠ []) (entries : Entries String Json) (indent : Nat) :
    map (spaces indent) name entries =
      startLine (spaces indent ++ (name ++ (" = ".toList ++
        bracedLines indent ((Entries.sorted entries).map assignment)))) := by
  have hindent : spaces indent ++ entryIndent = spaces (indent + 2) := spaces_append indent 2
  rw [map, if_neg hne, hindent, bracedLines]
  by_cases hnil : entries = []
  · simp [hnil, Entries.sorted_eq_nil_iff.2 rfl]
  · simp [hnil, Entries.sorted_eq_nil_iff]

end Plain

end StateText
