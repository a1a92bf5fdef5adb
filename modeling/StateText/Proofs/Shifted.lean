import StateText.Proofs.OneLine

/-!
# Shifted text

The column that a value is written from moves all its lines but the first, and does nothing else:
no string, number or name in it has a line feed of its own. `render_add` says so of whole values.
-/

namespace StateText

namespace Text

/-- The text with more blanks behind every line feed. -/
def shift (width : Nat) (cs : List Char) : List Char :=
  cs.flatMap fun c => if c = '\n' then '\n' :: spaces width else [c]

@[simp] theorem shift_nil (width : Nat) : shift width [] = [] := rfl

theorem shift_append (width : Nat) (cs ds : List Char) :
    shift width (cs ++ ds) = shift width cs ++ shift width ds := by
  simp [shift]

theorem shift_lineFeed (width : Nat) (cs : List Char) :
    shift width ('\n' :: cs) = '\n' :: (spaces width ++ shift width cs) := by
  simp [shift]

theorem shift_of_not_mem (width : Nat) {cs : List Char} (h : '\n' ∉ cs) : shift width cs = cs := by
  induction cs with
  | nil => rfl
  | cons c cs ih =>
    obtain ⟨hc, hcs⟩ := not_or.1 (mt List.mem_cons.2 h)
    have hstep : shift width (c :: cs) = c :: shift width cs := by simp [shift, Ne.symm hc]
    rw [hstep, ih hcs]

theorem spaces_append (a b : Nat) : spaces a ++ spaces b = spaces (a + b) :=
  List.replicate_append_replicate

theorem spaces_add (a b : Nat) : spaces (a + b) = spaces b ++ spaces a := by
  rw [spaces_append, Nat.add_comm]

theorem pieces_append_of_not_mem {line cs p : List Char} {ps : List (List Char)}
    (hline : '\n' ∉ line) (h : pieces cs = p :: ps) : pieces (line ++ cs) = (line ++ p) :: ps := by
  induction line with
  | nil => exact h
  | cons c line ih =>
    obtain ⟨hc, hrest⟩ := not_or.1 (mt List.mem_cons.2 hline)
    rw [List.cons_append, pieces, if_neg (Ne.symm hc), ih hrest]
    rfl

/-- The pieces are those from before, with blanks in front of all but the first. -/
theorem pieces_shift (width : Nat) (cs : List Char) : ∃ first others,
    pieces cs = first :: others ∧
      pieces (shift width cs) = first :: others.map (spaces width ++ ·) := by
  induction cs with
  | nil => exact ⟨[], [], rfl, rfl⟩
  | cons c cs ih =>
    obtain ⟨first, others, hpieces, hshift⟩ := ih
    by_cases hc : c = '\n'
    · subst hc
      refine ⟨[], first :: others, by rw [pieces_lineFeed, hpieces], ?_⟩
      rw [shift_lineFeed, pieces_lineFeed,
        pieces_append_of_not_mem (lineFeed_not_mem_spaces width) hshift, List.map_cons]
    · have hline : '\n' ∉ [c] := by simpa using Ne.symm hc
      refine ⟨c :: first, others, pieces_append_of_not_mem hline hpieces, ?_⟩
      rw [← List.singleton_append, shift_append, shift_of_not_mem width hline]
      exact pieces_append_of_not_mem hline hshift

def indented (width : Nat) (cs : List Char) : List Char := spaces width ++ shift width cs

theorem pieces_indented (width : Nat) (cs : List Char) :
    pieces (indented width cs) = (pieces cs).map (spaces width ++ ·) := by
  obtain ⟨first, others, hpieces, hshift⟩ := pieces_shift width cs
  rw [indented, pieces_append_of_not_mem (lineFeed_not_mem_spaces width) hshift, hpieces,
    List.map_cons]

end Text

open Text

namespace Render

/-- Lines of items, with the line feed in front of them and what stands behind them. -/
theorem shift_itemLines (inner width : Nat) (items : List (List Char)) (tail : List Char) :
    shift width ('\n' :: (itemLines inner items ++ tail)) =
      '\n' :: (itemLines (inner + width) (items.map (shift width)) ++
        (spaces width ++ shift width tail)) := by
  induction items with
  | nil => exact shift_lineFeed width tail
  | cons item items ih =>
    rw [itemLines_cons, List.map_cons, itemLines_cons, shift_lineFeed]
    simp only [List.append_assoc, List.cons_append, List.map_eq_nil_iff]
    rw [shift_append, shift_append, shift_append, ih, spaces_add,
      shift_of_not_mem width (lineFeed_not_mem_spaces inner),
      shift_of_not_mem width (lineFeed_not_mem_comma items)]
    simp only [List.append_assoc]

theorem shift_bracketed {opening closing : Char} (hopening : opening ≠ '\n')
    (hclosing : closing ≠ '\n') (indent width : Nat) (items : List (List Char)) :
    shift width (bracketed opening closing indent items) =
      bracketed opening closing (indent + width) (items.map (shift width)) := by
  by_cases hitems : items = []
  · subst hitems
    exact shift_of_not_mem width (by simp [hopening.symm, hclosing.symm])
  · have hnonempty : items.map (shift width) ≠ [] := mt List.map_eq_nil_iff.1 hitems
    have htail : '\n' ∉ spaces indent ++ [closing] := by simp [hclosing.symm]
    have hlines := shift_itemLines (indent + level) width items (spaces indent ++ [closing])
    rw [shift_of_not_mem width htail, Nat.add_right_comm] at hlines
    rw [bracketed, if_neg hitems, bracketed, if_neg hnonempty, List.append_assoc,
      List.cons_append, List.cons_append, ← List.singleton_append, shift_append,
      shift_of_not_mem width (by simpa using hopening.symm), hlines, spaces_add]
    simp only [List.append_assoc, List.cons_append, List.nil_append]

end Render

namespace Value

open Render

theorem chars_add (v : Value) (a b : Nat) : v.chars (a + b) = shift b (v.chars a) := by
  induction v using rows_induction generalizing a with
  | scalar v hv =>
    rw [shift_of_not_mem b (lineFeed_not_mem_chars hv a), chars_of_brackets?_eq_none hv (a + b) a]
  | collection v opening closing hv ih =>
    obtain ⟨hopening, hclosing⟩ : opening ≠ '\n' ∧ closing ≠ '\n' := by
      rcases brackets?_cases hv with ⟨rfl, rfl⟩ | ⟨rfl, rfl⟩ <;> decide
    rw [chars_eq_bracketed hv, chars_eq_bracketed hv, shift_bracketed hopening hclosing,
      List.map_map]
    congr 1
    refine List.map_congr_left fun r hr => ?_
    rw [Function.comp_apply, shift_append, shift_of_not_mem b (lineFeed_not_mem_of_mem_rows hr),
      Nat.add_right_comm, ih r hr]

/-- A value written from a column further to the right has the same lines, with more blanks in front
of all but the first. -/
theorem render_add (v : Value) (a b : Nat) :
    (v.render (a + b)).toList = shift b (v.render a).toList ∧
      (pieces (v.render (a + b)).toList).head? = (pieces (v.render a).toList).head? ∧
        (pieces (v.render (a + b)).toList).length = (pieces (v.render a).toList).length := by
  have hshift : (v.render (a + b)).toList = shift b (v.render a).toList := by
    rw [toList_render, toList_render, v.chars_add]
  obtain ⟨first, others, hpieces, hshifted⟩ := pieces_shift b (v.render a).toList
  refine ⟨hshift, ?_, ?_⟩
  · rw [hshift, hshifted, hpieces, List.head?_cons, List.head?_cons]
  · rw [hshift, hshifted, hpieces, List.length_cons, List.length_cons, List.length_map]

end Value

end StateText
