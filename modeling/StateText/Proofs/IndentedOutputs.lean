import StateText.Proofs.JsonString
import StateText.Proofs.PlainBrackets

/-!
# Indented outputs

Text in the plain layout whose strings have no line feed. Written from a column further to the right
it is the same text with blanks in front of its lines, but for lists: there the first line of what
is nested in an element gets the blanks twice. `lines_indented` says so of all four layouts.
-/

namespace StateText

namespace Text

theorem length_pieces (cs : List Char) : (pieces cs).length = cs.count '\n' + 1 := by
  induction cs with
  | nil => rfl
  | cons c cs ih =>
    by_cases hc : c = '\n'
    · rw [hc, pieces_lineFeed, List.length_cons, ih, List.count_cons_self]
    · obtain ⟨p, ps, hpieces⟩ := List.exists_cons_of_ne_nil (pieces_ne_nil cs)
      rw [hpieces] at ih
      rw [pieces, if_neg hc, hpieces, List.count_cons_of_ne hc]
      exact ih

theorem count_shift (width : Nat) (cs : List Char) :
    (shift width cs).count '\n' = cs.count '\n' := by
  obtain ⟨first, others, hpieces, hshift⟩ := pieces_shift width cs
  have hlength : (pieces (shift width cs)).length = (pieces cs).length := by
    rw [hpieces, hshift, List.length_cons, List.length_cons, List.length_map]
  rw [length_pieces, length_pieces] at hlength
  omega

/-- The lines of the second text are those of the first, each behind so many indentations. -/
structure Indents (width : Nat) (copies : List Nat) (cs ds : List Char) : Prop where
  length_eq : copies.length = (pieces cs).length
  pieces_eq : pieces ds =
    List.zipWith (fun n line => spaces (n * width) ++ line) copies (pieces cs)

namespace Indents

variable {width : Nat} {ns ms : List Nat} {cs cs' ds ds' : List Char}

/-- All lines but the first have one indentation. -/
theorem of_shift (width n : Nat) (cs : List Char) :
    Indents width (n :: List.replicate (cs.count '\n') 1) cs
      (spaces (n * width) ++ shift width cs) := by
  obtain ⟨first, others, hpieces, hshift⟩ := pieces_shift width cs
  have hlength : others.length = cs.count '\n' := by
    have hcount := length_pieces cs
    rw [hpieces, List.length_cons] at hcount
    omega
  refine ⟨by rw [hpieces, List.length_cons, List.length_cons, List.length_replicate, hlength], ?_⟩
  rw [pieces_append_of_not_mem (lineFeed_not_mem_spaces _) hshift, hpieces,
    List.zipWith_cons_cons, ← hlength, ← List.map_const', List.zipWith_map_left,
    List.zipWith_self, Nat.one_mul]

theorem of_line (width n : Nat) (h : '\n' ∉ cs) :
    Indents width [n] cs (spaces (n * width) ++ cs) := by
  have hshift := of_shift width n cs
  rwa [shift_of_not_mem width h, List.count_eq_zero.2 h] at hshift

theorem append (h : Indents width ns cs ds) (h' : Indents width ms cs' ds') :
    Indents width (ns ++ ms) (cs ++ '\n' :: cs') (ds ++ '\n' :: ds') := by
  refine ⟨?_, ?_⟩
  · rw [pieces_append_lineFeed, List.length_append, List.length_append, h.length_eq, h'.length_eq]
  · rw [pieces_append_lineFeed, pieces_append_lineFeed, h.pieces_eq, h'.pieces_eq,
      List.zipWith_append h.length_eq]

end Indents

end Text

open Text Render

namespace Json

inductive Unbroken : Json → Prop
  | null : Unbroken null
  | bool (b : Bool) : Unbroken (bool b)
  | number (n : Number) : Unbroken (number n)
  | string {s : String} (line : '\n' ∉ s.toList) : Unbroken (string s)
  | array {items : List Json} (each : ∀ j ∈ items, Unbroken j) : Unbroken (array items)
  | object {fields : List (String × Json)} (names : ∀ e ∈ fields, '\n' ∉ e.1.toList)
      (each : ∀ e ∈ fields, Unbroken e.2) : Unbroken (object fields)

theorem lineFeed_not_mem_stringChars (cs : List Char) : '\n' ∉ stringChars cs :=
  fun h => ne_lineFeed_of_mem_stringChars h rfl

theorem lineFeed_not_mem_commaSeparated {items : List (List Char)}
    (h : ∀ item ∈ items, '\n' ∉ item) : '\n' ∉ commaSeparated items := by
  induction items with
  | nil => exact List.not_mem_nil
  | cons item items ih =>
    obtain ⟨hitem, hrest⟩ := List.forall_mem_cons.1 h
    cases items with
    | nil => exact hitem
    | cons next items =>
      simp [commaSeparated_cons_cons, hitem, ih hrest]

mutual

/-- The compact text of any document is one line. -/
theorem lineFeed_not_mem_chars : ∀ j : Json, '\n' ∉ j.chars
  | .null => by decide
  | .bool true => by decide
  | .bool false => by decide
  | .number n => (Number.numeral_text n).lineFeed_not_mem
  | .string s => lineFeed_not_mem_stringChars s.toList
  | .array items => by
    have hitems := lineFeed_not_mem_commaSeparated (lineFeed_not_mem_itemChars items)
    simp [chars, hitems]
  | .object fields => by
    have hfields := lineFeed_not_mem_commaSeparated (lineFeed_not_mem_fieldChars fields)
    simp [chars, hfields]

theorem lineFeed_not_mem_itemChars : ∀ items : List Json, ∀ cs ∈ itemChars items, '\n' ∉ cs
  | [] => by simp [itemChars]
  | item :: items => by
    rw [itemChars, List.forall_mem_cons]
    exact ⟨lineFeed_not_mem_chars item, lineFeed_not_mem_itemChars items⟩

theorem lineFeed_not_mem_fieldChars :
    ∀ fields : List (String × Json), ∀ cs ∈ fieldChars fields, '\n' ∉ cs
  | [] => by simp [fieldChars]
  | (name, value) :: fields => by
    rw [fieldChars, List.forall_mem_cons]
    refine ⟨?_, lineFeed_not_mem_fieldChars fields⟩
    simp [lineFeed_not_mem_stringChars, lineFeed_not_mem_chars value]

end

end Json

namespace Plain

variable {j : Json} {name : List Char} {items : List Json} {entries : Entries String Json}

theorem lineFeed_not_mem_inline (h : j.Unbroken) : '\n' ∉ inline j := by
  cases h with
  | string line => exact line
  | _ => exact Json.lineFeed_not_mem_chars _

theorem lineFeed_not_mem_assignments (h : (Json.object entries).Unbroken) :
    ∀ line ∈ (Entries.sorted entries).map assignment, '\n' ∉ line := by
  cases h with
  | object names each =>
    intro line hline
    obtain ⟨e, he, rfl⟩ := List.mem_map.1 hline
    have hmem : e ∈ entries := Entries.mem_sortBy.1 he
    simp [assignment, names e hmem, lineFeed_not_mem_inline (each e hmem)]

theorem lineFeed_not_mem_inlines (h : (Json.array items).Unbroken) :
    ∀ line ∈ items.map inline, '\n' ∉ line := by
  cases h with
  | array each =>
    intro line hline
    obtain ⟨j, hj, rfl⟩ := List.mem_map.1 hline
    exact lineFeed_not_mem_inline (each j hj)

/-- Brackets around items of one line each. -/
theorem shift_lines {opening closing : Char} (hopening : opening ≠ '\n')
    (hclosing : closing ≠ '\n') {lines : List (List Char)} (h : ∀ line ∈ lines, '\n' ∉ line)
    (column width : Nat) : shift width (bracketed opening closing column lines) =
      bracketed opening closing (column + width) lines := by
  have hlines : lines.map (shift width) = lines :=
    (List.map_congr_left fun line hline => shift_of_not_mem width (h line hline)).trans
      (List.map_id lines)
  rw [shift_bracketed hopening hclosing, hlines]

/-- How often an element has the indentation in front of its first line, once apart. -/
def nesting : Json → Nat
  | .array _ | .object _ => 1
  | _ => 0

theorem elementText_eq (extra column : Nat) (j : Json) :
    elementText extra column j = spaces (nesting j * extra) ++ elementText 0 column j := by
  cases j <;> simp [elementText, nesting]

theorem elementText_shift (h : j.Unbroken) (column width : Nat) :
    shift width (elementText 0 column j) = elementText 0 (column + width) j := by
  cases h with
  | string line => exact shift_of_not_mem width line
  | array each =>
    exact shift_lines (by decide) (by decide) (lineFeed_not_mem_inlines (.array each)) column width
  | object names each =>
    exact shift_lines (by decide) (by decide) (lineFeed_not_mem_assignments (.object names each))
      column width
  | _ => rfl

def elementIndents (j : Json) : List Nat :=
  (1 + nesting j) :: List.replicate ((elementText 0 0 j).count '\n') 1

/-- The indentations of the lines of a list. Without a name and without elements it has no lines but
an empty text. -/
def listIndents (name : List Char) (items : List Json) : List Nat :=
  if items = [] then [if name = [] then 0 else 1]
  else if name = [] then items.flatMap elementIndents
  else 1 :: items.flatMap elementIndents ++ [1]

theorem element_shift (h : j.Unbroken) (column width : Nat) :
    element [] (spaces (column + width)) j = shift width (element [] (spaces column) j) := by
  by_cases hshown : IsShown j
  · have helement := element_eq hshown 0
    rw [spaces_zero] at helement
    rw [helement, helement, itemBelow, itemBelow, shift_lineFeed, shift_append,
      shift_of_not_mem width (lineFeed_not_mem_spaces column), elementText_shift h, spaces_add,
      List.append_assoc]
  · cases j with
    | string s => exact absurd trivial hshown
    | array items => exact absurd trivial hshown
    | object entries => exact absurd trivial hshown
    | _ => rfl

/-- The lines of an element, and of what stands behind it on its last line. -/
theorem indents_element (h : j.Unbroken) (column width : Nat) {tail : List Char}
    (htail : '\n' ∉ tail) : Indents width (elementIndents j)
      (spaces column ++ (elementText 0 column j ++ tail))
      (spaces (column + width) ++ (elementText width (column + width) j ++ tail)) := by
  have hcount : (elementText 0 column j).count '\n' = (elementText 0 0 j).count '\n' := by
    rw [← Nat.zero_add column, ← elementText_shift h, count_shift]
  have hnone : (spaces column).count '\n' = 0 :=
    List.count_eq_zero.2 (lineFeed_not_mem_spaces column)
  have hblanks (cs : List Char) : spaces ((1 + nesting j) * width) ++ (spaces column ++ cs) =
      spaces (column + width) ++ (spaces (nesting j * width) ++ cs) := by
    rw [← List.append_assoc, ← List.append_assoc, spaces_append, spaces_append, Nat.add_mul,
      Nat.one_mul]
    exact congrArg (spaces · ++ cs) (by omega)
  have hlines :=
    Indents.of_shift width (1 + nesting j) (spaces column ++ (elementText 0 column j ++ tail))
  rw [List.count_append, List.count_append, hcount, hnone, List.count_eq_zero.2 htail,
    Nat.zero_add, Nat.add_zero, shift_append, shift_append,
    shift_of_not_mem width (lineFeed_not_mem_spaces column), shift_of_not_mem width htail,
    elementText_shift h, hblanks] at hlines
  rwa [elementText_eq width, List.append_assoc]

/-- The lines of elements with commas between them, below the line that they start on. -/
theorem indents_elements (hne : items ≠ []) (hshown : ∀ j ∈ items, IsShown j)
    (h : ∀ j ∈ items, j.Unbroken) (column width : Nat) : ∃ cs ds,
      Json.commaSeparated (items.map (element [] (spaces column))) = '\n' :: cs ∧
        Json.commaSeparated
            (items.map (element (spaces width) (spaces (column + width)))) = '\n' :: ds ∧
          Indents width (items.flatMap elementIndents) cs ds := by
  have helement {j : Json} (hj : IsShown j) (extra column : Nat) :
      element (spaces extra) (spaces column) j =
        '\n' :: (spaces column ++ elementText extra column j) := element_eq hj extra column
  -- a comma stands on the last line of the element before it
  induction items with
  | nil => exact absurd rfl hne
  | cons j items ih =>
    obtain ⟨hj, hshown⟩ := List.forall_mem_cons.1 hshown
    obtain ⟨hline, h⟩ := List.forall_mem_cons.1 h
    cases items with
    | nil =>
      have hlast := indents_element hline column width List.not_mem_nil
      rw [List.append_nil, List.append_nil] at hlast
      refine ⟨_, _, helement hj 0 column, helement hj width (column + width), ?_⟩
      rwa [List.flatMap_singleton]
    | cons next items =>
      obtain ⟨cs, ds, hcs, hds, hrest⟩ := ih (List.cons_ne_nil next items) hshown h
      have hcomma (f : Json → List Char) : Json.commaSeparated ((j :: next :: items).map f) =
          f j ++ ',' :: Json.commaSeparated ((next :: items).map f) :=
        Json.commaSeparated_cons_cons (f j) (f next) (items.map f)
      have htail : '\n' ∉ [','] := by decide
      have hfirst := indents_element hline column width htail
      refine ⟨_, _, ?_, ?_, hfirst.append hrest⟩
      · have hj' : element [] (spaces column) j = _ := helement hj 0 column
        rw [hcomma, hcs, hj']
        simp only [List.append_assoc, List.cons_append, List.nil_append]
      · rw [hcomma, hds, helement hj]
        simp only [List.append_assoc, List.cons_append, List.nil_append]

/-! ### The four layouts -/

theorem nestedList_indented (h : (Json.array items).Unbroken) (width : Nat) :
    nestedList (spaces width) items = indented width (nestedList [] items) := by
  have hempty : nestedList [] items = bracketed '[' ']' 0 (items.map inline) :=
    nestedList_eq 0 items
  rw [hempty, indented, shift_lines (by decide) (by decide) (lineFeed_not_mem_inlines h),
    nestedList_eq, Nat.zero_add]

theorem nestedMap_indented (h : (Json.object entries).Unbroken) (width : Nat) :
    nestedMap (spaces width) entries = indented width (nestedMap [] entries) := by
  have hempty : nestedMap [] entries = bracketed '\x7b' '\x7d' 0
      ((Entries.sorted entries).map assignment) := nestedMap_eq 0 entries
  rw [hempty, indented, shift_lines (by decide) (by decide) (lineFeed_not_mem_assignments h),
    nestedMap_eq, Nat.zero_add]

theorem shift_linesBehind {lines : List (List Char)} (h : ∀ line ∈ lines, '\n' ∉ line)
    (column width : Nat) : shift width (linesBehind (spaces column) lines) =
      linesBehind (spaces (column + width)) lines := by
  induction lines with
  | nil => rfl
  | cons line lines ih =>
    obtain ⟨hline, hrest⟩ := List.forall_mem_cons.1 h
    have hfirst : '\n' ∉ spaces column ++ line := by simp [hline]
    rw [linesBehind, List.cons_append, List.cons_append, shift_lineFeed, shift_append,
      shift_of_not_mem width hfirst, ih hrest, linesBehind, spaces_add]
    simp only [List.append_assoc, List.cons_append]

theorem linesBehind_spaces {lines : List (List Char)} (hne : lines ≠ [])
    (h : ∀ line ∈ lines, '\n' ∉ line) (width : Nat) :
    linesBehind (spaces width) lines =
      '\n' :: indented width (startLine (linesBehind [] lines)) := by
  obtain ⟨line, lines, rfl⟩ := List.exists_cons_of_ne_nil hne
  have hshift := shift_linesBehind h 0 width
  rw [spaces_zero, Nat.zero_add] at hshift
  have hfirst : linesBehind [] (line :: lines) = '\n' :: (line ++ linesBehind [] lines) := rfl
  rw [← hshift, hfirst, shift_lineFeed]
  rfl

theorem shift_bracedLines {lines : List (List Char)} (h : ∀ line ∈ lines, '\n' ∉ line)
    (indent width : Nat) :
    shift width (bracedLines indent lines) = bracedLines (indent + width) lines := by
  have hbrace (cs : List Char) : shift width ('\x7b' :: cs) = '\x7b' :: shift width cs := by
    simp [shift]
  have hclosing : shift width ['\x7d'] = ['\x7d'] := shift_of_not_mem width (by decide)
  rw [bracedLines, hbrace, shift_append, shift_linesBehind h, shift_append, hclosing, bracedLines,
    Nat.add_right_comm]
  split_ifs
  · rfl
  · rw [shift_lineFeed, shift_of_not_mem width (lineFeed_not_mem_spaces indent),
      spaces_add indent width]

/-- The lines of a map without a name, in braces. -/
theorem bracedLines_zero {lines : List (List Char)} (hne : lines ≠ [])
    (h : ∀ line ∈ lines, '\n' ∉ line) : bracedLines 0 lines =
      "\x7b\n".toList ++ (indented 2 (startLine (linesBehind [] lines)) ++ "\n\x7d".toList) := by
  rw [bracedLines, Nat.zero_add, linesBehind_spaces hne h, if_neg hne]
  rfl

/-- A name without a line feed stays where it is. -/
theorem startLine_named (hne : name ≠ []) (hname : '\n' ∉ name) (width : Nat) (cs : List Char) :
    startLine (spaces width ++ (name ++ cs)) = spaces width ++ (name ++ cs) := by
  obtain ⟨c, name, rfl⟩ := List.exists_cons_of_ne_nil hne
  have hc : c ≠ '\n' := fun h => hname (h ▸ List.mem_cons_self)
  exact startLine_spaces width hc (name ++ cs)

theorem map_indented (hname : '\n' ∉ name) (hne : ¬ (name = [] ∧ entries = []))
    (h : (Json.object entries).Unbroken) (width : Nat) :
    map (spaces width) name entries = indented width (map [] name entries) := by
  have hlines := lineFeed_not_mem_assignments h
  by_cases hbare : name = []
  · have hentries : entries ≠ [] := fun hnil => hne ⟨hbare, hnil⟩
    rw [map, if_pos hbare, map, if_pos hbare,
      linesBehind_spaces (assignments_ne_nil hentries) hlines]
    rfl
  · have hequals : '\n' ∉ " = ".toList := by decide
    have hmap (width : Nat) : map (spaces width) name entries = spaces width ++ (name ++
        (" = ".toList ++ bracedLines width ((Entries.sorted entries).map assignment))) :=
      (map_named hbare entries width).trans (startLine_named hbare hname width _)
    have hplain : map [] name entries = name ++
        (" = ".toList ++ bracedLines 0 ((Entries.sorted entries).map assignment)) := hmap 0
    rw [hmap, hplain, indented, shift_append, shift_append, shift_of_not_mem width hname,
      shift_of_not_mem width hequals, shift_bracedLines hlines, Nat.zero_add]

theorem indents_bare (hshown : ∀ j ∈ items, IsShown j) (h : ∀ j ∈ items, j.Unbroken)
    (width : Nat) :
    Indents width (listIndents [] items) (list [] [] items) (list (spaces width) [] items) := by
  have hlist (indent : List Char) : list indent [] items =
      startLine (Json.commaSeparated (items.map (element indent indent))) := if_pos rfl
  rw [hlist, hlist, listIndents]
  by_cases hnil : items = []
  · have hempty : Indents width [0] [] (spaces (0 * width) ++ []) :=
      Indents.of_line width 0 List.not_mem_nil
    rw [Nat.zero_mul, spaces_zero] at hempty
    rwa [if_pos hnil, if_pos rfl, hnil]
  · obtain ⟨cs, ds, hcs, hds, hlines⟩ := indents_elements hnil hshown h 0 width
    rw [spaces_zero] at hcs
    rw [Nat.zero_add] at hds
    rw [if_neg hnil, if_pos rfl, hcs, hds]
    exact hlines

theorem list_named_nil (hne : name ≠ []) (hname : '\n' ∉ name) (width : Nat) :
    list (spaces width) name [] = spaces width ++ (name ++ " = []".toList) :=
  (list_named hne (fun _ hj => absurd hj List.not_mem_nil) width).trans
    (startLine_named hne hname width _)

theorem list_named_lines (hne : name ≠ []) (hname : '\n' ∉ name) (hnil : items ≠ []) {width : Nat}
    {cs : List Char} (hcs : Json.commaSeparated
      (items.map (element (spaces width) (spaces (level + width)))) = '\n' :: cs) :
    list (spaces width) name items = spaces width ++ (name ++ " = [".toList) ++
      '\n' :: (cs ++ '\n' :: (spaces width ++ [']'])) := by
  have hstart := startLine_named hne hname width
    (" = [".toList ++ '\n' :: (cs ++ '\n' :: (spaces width ++ [']'])))
  rw [list, if_neg hne, if_neg hnil, elementIndent, spaces_append, Nat.add_comm width, hcs]
  simpa using hstart

/-- The line of the name, those of the elements, and the last one. -/
theorem indents_named (hne : name ≠ []) (hname : '\n' ∉ name) (hshown : ∀ j ∈ items, IsShown j)
    (h : ∀ j ∈ items, j.Unbroken) (width : Nat) :
    Indents width (listIndents name items) (list [] name items)
      (list (spaces width) name items) := by
  have hline {cs : List Char} (hcs : '\n' ∉ cs) : Indents width [1] cs (spaces width ++ cs) := by
    have hone := Indents.of_line width 1 hcs
    rwa [Nat.one_mul] at hone
  have hopening {cs : List Char} (hcs : '\n' ∉ cs) : '\n' ∉ name ++ cs := by simp [hname, hcs]
  by_cases hnil : items = []
  · have hplain : list [] name [] = name ++ " = []".toList := list_named_nil hne hname 0
    rw [listIndents, if_pos hnil, if_neg hne, hnil, list_named_nil hne hname, hplain]
    exact hline (hopening (by decide))
  · obtain ⟨cs, ds, hcs, hds, hlines⟩ := indents_elements hnil hshown h level width
    have hplain : list (spaces 0) name items =
        name ++ " = [".toList ++ '\n' :: (cs ++ '\n' :: [']']) :=
      list_named_lines hne hname hnil hcs
    rw [spaces_zero] at hplain
    rw [listIndents, if_neg hnil, if_neg hne, list_named_lines hne hname hnil hds, hplain]
    exact (hline (hopening (by decide))).append (hlines.append (hline (by decide)))

/-- At an indentation, the lines of nested lists and maps and of maps are those without it, each
behind the indentation; those of lists are behind as many as `listIndents` says, which is two for
the line that opens a nested element and one for each other line. Without a name and without
anything to write, there is no text at any indentation. -/
theorem lines_indented (width : Nat) (hname : '\n' ∉ name) (hitems : (Json.array items).Unbroken)
    (hentries : (Json.object entries).Unbroken) :
    (pieces (nestedList (spaces width) items) =
        (pieces (nestedList [] items)).map (spaces width ++ ·) ∧
      pieces (nestedMap (spaces width) entries) =
        (pieces (nestedMap [] entries)).map (spaces width ++ ·)) ∧
      (if name = [] ∧ entries = [] then map (spaces width) name entries = []
        else pieces (map (spaces width) name entries) =
          (pieces (map [] name entries)).map (spaces width ++ ·)) ∧
      (name = [] ∧ items = [] → list (spaces width) name items = []) ∧
      ((∀ j ∈ items, IsShown j) → Indents width (listIndents name items) (list [] name items)
        (list (spaces width) name items)) := by
  refine ⟨⟨?_, ?_⟩, ?_, ?_, fun hshown => ?_⟩
  · rw [nestedList_indented hitems, pieces_indented]
  · rw [nestedMap_indented hentries, pieces_indented]
  · split_ifs with hempty
    · rw [hempty.1, hempty.2]
      rfl
    · rw [map_indented hname hempty hentries, pieces_indented]
  · rintro ⟨rfl, rfl⟩
    rfl
  · have h : ∀ j ∈ items, j.Unbroken := by
      cases hitems with
      | array each => exact each
    by_cases hbare : name = []
    · rw [hbare]
      exact indents_bare hshown h width
    · exact indents_named hbare hname hshown h width

/-- A list with a string, a list and a map in it, under a name. -/
theorem lines_indented_nested :
    let items : List Json := [.string "a", .array [.string "b"], .object [("c", .string "d")]]
    let entries : Entries String Json := [("c", .string "d")]
    '\n' ∉ "n".toList ∧ (Json.array items).Unbroken ∧ (Json.object entries).Unbroken ∧
      listIndents "n".toList items = [1, 1, 2, 1, 1, 2, 1, 1, 1] ∧
      Indents 2 [1, 1, 2, 1, 1, 2, 1, 1, 1] (list [] "n".toList items)
        (list (spaces 2) "n".toList items) := by
  intro items entries
  have hd : (Json.string "d").Unbroken := .string (by decide)
  have hentries : (Json.object entries).Unbroken := .object (by decide) (by simpa [entries])
  have hitems : (Json.array items).Unbroken := by
    refine .array ?_
    simp only [items, List.forall_mem_cons]
    refine ⟨.string (by decide), .array ?_, hentries, by simp⟩
    simpa using Json.Unbroken.string (s := "b") (by decide)
  have hname : '\n' ∉ "n".toList := by decide
  have hshown : ∀ j ∈ items, IsShown j := by simp [items, IsShown]
  exact ⟨hname, hitems, hentries, rfl, (lines_indented 2 hname hitems hentries).2.2.2 hshown⟩

/-- The line that opens a nested element is further to the right than the one that closes it. -/
theorem list_indents_opening_twice :
    let items : List Json := [.array [.string "a"]]
    list (spaces 2) "n".toList items = "  n = [\n        [\n          a\n      ]\n  ]".toList ∧
      pieces (list (spaces 2) "n".toList items) ≠
        (pieces (list [] "n".toList items)).map (spaces 2 ++ ·) := by
  decide

end Plain

end StateText
