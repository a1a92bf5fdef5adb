import StateText.Proofs.Legible
import StateText.Proofs.Rows
import StateText.Proofs.Sections
import StateText.Proofs.StringLiteral

/-!
# What stays on its line

Strings, numbers and names are written without a line feed, and so are addresses whose names have
none. A value may take several lines; behind its line feeds stand blanks and closing brackets, so
that no line of it below the first is marked as a header.
-/

namespace StateText

namespace Text

@[simp] theorem lineFeed_not_mem_hexDigits (n : Nat) : '\n' ∉ hexDigits n := by
  unfold hexDigits
  induction n using Nat.strongRecOn with
  | ind n ih =>
    rw [Nat.toDigits_eq_if (by decide)]
    split_ifs with hn
    · simp
    · simp [ih (n / 16) (by omega)]

theorem Quoted.lineFeed_not_mem_escape (c : Char) : '\n' ∉ escape c := by
  unfold escape
  split
  all_goals try decide
  next hfeed _ _ _ =>
    split_ifs
    · simp
    · simpa using Ne.symm hfeed

@[simp] theorem lineFeed_not_mem_quoted (s : String) : '\n' ∉ (quoted s).toList := by
  simp [quoted, Quoted.encode, Quoted.lineFeed_not_mem_escape]

@[simp] theorem lineFeed_not_mem_spaces (n : Nat) : '\n' ∉ spaces n := by
  simp [spaces]

end Text

theorem Number.Numeral.lineFeed_not_mem {cs : List Char} (h : Numeral cs) : '\n' ∉ cs :=
  fun hc => absurd (h.forall_isNumeral _ hc) (by decide)

@[simp] theorem lineFeed_not_mem_digits (n : Nat) : '\n' ∉ Nat.toDigits 10 n :=
  (Number.numeral_toDigits n).lineFeed_not_mem

namespace Literal

theorem lineFeed_not_mem_stringChars (cs : List Char) : '\n' ∉ stringChars cs :=
  fun h => absurd (not_isControl_of_mem_stringChars _ h) (by decide)

theorem lineFeed_not_mem_key (name : String) : '\n' ∉ key name := by
  unfold key keyChars
  split_ifs with h
  · exact fun hc => IsIdentifier.ne_of_mem h hc (by decide) rfl
  · exact lineFeed_not_mem_stringChars _

end Literal

open Check

namespace Render

theorem lineFeed_not_mem_comma (items : List (List Char)) :
    '\n' ∉ if items = [] then [] else [','] := by
  split_ifs <;> decide

/-- Items on lines of their own, and what closes the brackets behind them. -/
theorem unmarked_itemLines {inner : Nat} (hinner : 0 < inner) {items : List (List Char)}
    (hitems : ∀ item ∈ items, Unmarked item) {tail : List Char} (htail : Unmarked tail)
    (hmark : tail.head? ≠ some '#') : Unmarked ('\n' :: (itemLines inner items ++ tail)) := by
  obtain ⟨width, rfl⟩ := Nat.exists_eq_succ_of_ne_zero hinner.ne'
  have hindented {cs : List Char} (hcs : Unmarked cs) :
      Unmarked ('\n' :: (Text.spaces (width + 1) ++ cs)) :=
    (hcs.prepend _ (Text.lineFeed_not_mem_spaces _)).lineFeed
      (by simp [Text.spaces, List.replicate_succ])
  induction items with
  | nil => exact htail.lineFeed hmark
  | cons item items ih =>
    obtain ⟨hitem, hrest⟩ := List.forall_mem_cons.1 hitems
    have hbehind := (ih hrest).prepend _ (lineFeed_not_mem_comma items)
    have hline := hindented (hitem.append hbehind (by split_ifs <;> simp))
    simpa [itemLines_cons] using hline

theorem unmarked_bracketed {opening closing : Char} (hopening : opening ≠ '\n')
    (hclosing : closing ≠ '\n') (hmark : closing ≠ '#') (indent : Nat)
    {items : List (List Char)} (hitems : ∀ item ∈ items, Unmarked item) :
    Unmarked (bracketed opening closing indent items) := by
  unfold bracketed
  split_ifs
  · exact .of_not_mem (by simp [hopening.symm, hclosing.symm])
  · have htail : Unmarked (Text.spaces indent ++ [closing]) :=
      .of_not_mem (by simp [hclosing.symm])
    have hhead : (Text.spaces indent ++ [closing]).head? ≠ some '#' := by
      cases indent <;> simp [Text.spaces, List.replicate_succ, hmark]
    have hinner : 0 < indent + level := Nat.add_pos_right indent (by decide)
    have hlines := unmarked_itemLines hinner hitems htail hhead
    simpa using hlines.prepend [opening] (by simpa using hopening.symm)

end Render

namespace Value

open Render

variable {v : Value} {r : List Char × Value}

theorem lineFeed_not_mem_of_mem_rows (hr : r ∈ v.rows) : '\n' ∉ r.1 := by
  rcases label_of_mem_rows hr with h | ⟨name, h⟩
  · rw [h]
    exact List.not_mem_nil
  · rw [h]
    simp [label, Literal.lineFeed_not_mem_key]

theorem lineFeed_not_mem_chars (h : v.brackets? = none) (indent : Nat) :
    '\n' ∉ v.chars indent := by
  cases v with
  | null => exact show '\n' ∉ "null".toList by decide
  | string s => exact Literal.lineFeed_not_mem_stringChars s.toList
  | number n => exact (Number.numeral_literal n).lineFeed_not_mem
  | bool b =>
    cases b with
    | true => exact show '\n' ∉ "true".toList by decide
    | false => exact show '\n' ∉ "false".toList by decide
  | _ => cases h

theorem unmarked_chars (v : Value) (indent : Nat) : Unmarked (v.chars indent) := by
  induction v using rows_induction generalizing indent with
  | scalar v hv => exact .of_not_mem (lineFeed_not_mem_chars hv indent)
  | collection v opening closing hv ih =>
    obtain ⟨hopening, hclosing, hmark⟩ : opening ≠ '\n' ∧ closing ≠ '\n' ∧ closing ≠ '#' := by
      rcases brackets?_cases hv with ⟨rfl, rfl⟩ | ⟨rfl, rfl⟩ <;> decide
    rw [chars_eq_bracketed hv]
    refine unmarked_bracketed hopening hclosing hmark indent fun item hitem => ?_
    obtain ⟨r, hr, rfl⟩ := List.mem_map.1 hitem
    exact (ih r hr (indent + level)).prepend r.1 (lineFeed_not_mem_of_mem_rows hr)

end Value

end StateText
