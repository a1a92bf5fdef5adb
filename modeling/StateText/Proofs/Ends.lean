import Mathlib.Tactic.SplitIfs
import StateText.Proofs.Walk

/-!
# The ends of shown text

Every written value ends in a character that shows. `trim_text` concludes that trimming takes the
last line feed off the text of a state and leaves everything else.
-/

namespace StateText

namespace Text

def EndsVisibly (cs : List Char) : Prop := ∃ front c, cs = front ++ [c] ∧ isBlank c = false

theorem EndsVisibly.append (front : List Char) {cs : List Char} (h : EndsVisibly cs) :
    EndsVisibly (front ++ cs) := by
  obtain ⟨ds, c, rfl, hc⟩ := h
  exact ⟨front ++ ds, c, (List.append_assoc _ _ _).symm, hc⟩

theorem endsVisibly_snoc (front : List Char) {c : Char} (hc : isBlank c = false) :
    EndsVisibly (front ++ [c]) := ⟨front, c, rfl, hc⟩

theorem endsVisibly_of_forall {cs : List Char} (hne : cs ≠ []) (h : ∀ c ∈ cs, isBlank c = false) :
    EndsVisibly cs :=
  ⟨cs.dropLast, cs.getLast hne, (List.dropLast_concat_getLast hne).symm,
    h _ (List.getLast_mem hne)⟩

theorem flatMap_eq_append_getLast {α β : Type} (f : α → List β) {as : List α} (h : as ≠ []) :
    as.flatMap f = as.dropLast.flatMap f ++ f (as.getLast h) := by
  calc
    as.flatMap f = (as.dropLast ++ [as.getLast h]).flatMap f := by
      rw [List.dropLast_concat_getLast]
    _ = _ := by simp

/-- Characters of a kind up to the first one that is not of it. -/
theorem span_append {p : Char → Bool} {cs t : List Char} (h : ∀ c ∈ cs, p c = true)
    (ht : ∀ c ∈ t.head?, p c = false) :
    (cs ++ t).takeWhile p = cs ∧ (cs ++ t).dropWhile p = t := by
  rw [List.takeWhile_append_of_pos h, List.dropWhile_append_of_pos h]
  cases t with
  | nil => simp
  | cons c t => simp [ht c rfl]

theorem trimStart_cons {c : Char} (hc : isBlank c = false) (cs : List Char) :
    trimStart (c :: cs) = c :: cs := by
  simp [trimStart, hc]

theorem trimEnd_snoc_lineFeed {cs : List Char} (h : EndsVisibly cs) :
    trimEnd (cs ++ ['\n']) = cs := by
  obtain ⟨front, c, rfl, hc⟩ := h
  have hn : isBlank '\n' = true := by decide
  simp [trimEnd, trimStart, hn, hc]

end Text

namespace Number

def isNumeral (c : Char) : Bool := c.isDigit || c == '-' || c == '+' || c == '.' || c == 'e'

theorem isNumeral_of_isDigit {c : Char} (h : c.isDigit = true) : isNumeral c = true := by
  simp [isNumeral, h]

theorem isBlank_of_isNumeral {c : Char} (h : isNumeral c = true) : Text.isBlank c = false := by
  simp only [isNumeral, Bool.or_eq_true, beq_iff_eq, or_assoc] at h
  rcases h with hd | rfl | rfl | rfl | rfl
  · simp only [Char.isDigit, Bool.and_eq_true, decide_eq_true_eq] at hd
    have hlow : 48 ≤ c.toNat := UInt32.le_iff_toNat_le.1 hd.1
    have hhigh : c.toNat ≤ 57 := UInt32.le_iff_toNat_le.1 hd.2
    simp only [Text.isBlank, decide_eq_false_iff_not]
    omega
  all_goals decide

structure Numeral (cs : List Char) : Prop where
  ne_nil : cs ≠ []
  forall_isNumeral : ∀ c ∈ cs, isNumeral c = true

theorem numeral_toDigits (n : Nat) : Numeral (Nat.toDigits 10 n) where
  ne_nil := Nat.toDigits_ne_nil
  forall_isNumeral c hc :=
    isNumeral_of_isDigit (Nat.isDigit_of_mem_toDigits (by decide) (by decide) hc)

theorem Numeral.append {cs ds : List Char} (hc : Numeral cs) (hd : ∀ c ∈ ds, isNumeral c = true) :
    Numeral (cs ++ ds) where
  ne_nil h := hc.ne_nil (List.append_eq_nil_iff.1 h).1
  forall_isNumeral c h := (List.mem_append.1 h).elim (hc.forall_isNumeral c) (hd c)

theorem Numeral.cons {c : Char} {cs : List Char} (hc : isNumeral c = true)
    (hd : ∀ c ∈ cs, isNumeral c = true) : Numeral (c :: cs) where
  ne_nil := List.cons_ne_nil _ _
  forall_isNumeral d h := (List.mem_cons.1 h).elim (fun e => e ▸ hc) (hd d)

theorem Numeral.signed (negative : Bool) {cs : List Char} (h : Numeral cs) :
    Numeral (signed negative cs) := by
  cases negative with
  | true => exact .cons (by decide) h.forall_isNumeral
  | false => exact h

theorem forall_isNumeral_replicate (n : Nat) : ∀ c ∈ List.replicate n '0', isNumeral c = true := by
  intro c hc
  rw [List.eq_of_mem_replicate hc]
  decide

theorem numeral_positional (d : Decimal) : Numeral d.positional := by
  have hds : Numeral d.digits := numeral_toDigits d.coefficient
  have hzeros := fun n => forall_isNumeral_replicate n
  unfold Decimal.positional
  dsimp only
  split_ifs with hp hl
  · refine .cons (by decide) (Numeral.cons (by decide) ?_).forall_isNumeral
    intro c hc
    exact (List.mem_append.1 hc).elim (hzeros _ c) (hds.forall_isNumeral c)
  · refine (hds.append (hzeros _)).append ?_
    intro c hc
    rcases List.mem_cons.1 hc with rfl | hc
    · decide
    · rw [List.mem_singleton.1 hc]
      decide
  · constructor
    · simp
    · intro c hc
      rcases List.mem_append.1 hc with hc | hc
      · exact hds.forall_isNumeral c (List.mem_of_mem_take hc)
      · rcases List.mem_cons.1 hc with rfl | hc
        · decide
        · exact hds.forall_isNumeral c (List.mem_of_mem_drop hc)

theorem numeral_scientific (d : Decimal) : Numeral d.scientific := by
  have hds : Numeral d.digits := numeral_toDigits d.coefficient
  have hexp : Numeral (Nat.toDigits 10 d.leading.natAbs) := numeral_toDigits _
  have htail : ∀ sign, isNumeral sign = true →
      Numeral ('e' :: sign :: Nat.toDigits 10 d.leading.natAbs) := by
    intro sign hs
    exact .cons (by decide) (Numeral.cons hs hexp.forall_isNumeral).forall_isNumeral
  have hsign : isNumeral (if d.leading < 0 then '-' else '+') = true := by
    split_ifs <;> decide
  unfold Decimal.scientific
  dsimp only
  cases hd : d.digits with
  | nil => exact absurd hd hds.ne_nil
  | cons c cs =>
    rw [hd] at hds
    cases cs with
    | nil => exact hds.append (htail _ hsign).forall_isNumeral
    | cons c' cs =>
      refine Numeral.append ?_ (htail _ hsign).forall_isNumeral
      refine .cons (hds.forall_isNumeral c (by simp)) ?_
      intro x hx
      rcases List.mem_cons.1 hx with rfl | hx
      · decide
      · exact hds.forall_isNumeral x (List.mem_cons_of_mem _ hx)

theorem numeral_text (n : Number) : Numeral n.text := by
  cases n with
  | natural n _ => exact numeral_toDigits n
  | negative n _ => exact .cons (by decide) (numeral_toDigits n).forall_isNumeral
  | float x =>
    refine Numeral.signed _ ?_
    unfold Decimal.Layout.write
    split_ifs
    · exact numeral_positional _
    · exact numeral_scientific _

theorem numeral_literal (n : Number) : Numeral (Literal.number n) := by
  unfold Literal.number
  split
  next x =>
    split
    next m _ =>
      split_ifs
      · exact Numeral.signed _ (numeral_toDigits m)
      · exact numeral_text _
    next => exact numeral_text _
  next => exact numeral_text _

end Number

open Text

theorem Literal.endsVisibly_stringChars (cs : List Char) :
    EndsVisibly (Literal.stringChars cs) :=
  endsVisibly_snoc ('"' :: Literal.body cs) (by decide)

theorem Render.endsVisibly_bracketed (opening : Char) {closing : Char} (indent : Nat)
    (items : List (List Char)) (hc : isBlank closing = false) :
    EndsVisibly (Render.bracketed opening closing indent items) := by
  unfold Render.bracketed
  split_ifs
  · exact endsVisibly_snoc [opening] hc
  · exact endsVisibly_snoc _ hc

theorem Value.endsVisibly_chars (v : Value) (indent : Nat) : EndsVisibly (v.chars indent) := by
  cases v with
  | null => exact endsVisibly_snoc ['n', 'u', 'l'] (by decide)
  | string s => exact Literal.endsVisibly_stringChars _
  | number n =>
    have hn := Number.numeral_literal n
    exact endsVisibly_of_forall hn.ne_nil fun c hc =>
      Number.isBlank_of_isNumeral (hn.forall_isNumeral c hc)
  | bool b =>
    cases b with
    | true => exact endsVisibly_snoc ['t', 'r', 'u'] (by decide)
    | false => exact endsVisibly_snoc ['f', 'a', 'l', 's'] (by decide)
  | list items => exact Render.endsVisibly_bracketed _ _ _ (by decide)
  | set items => exact Render.endsVisibly_bracketed _ _ _ (by decide)
  | tuple items => exact Render.endsVisibly_bracketed _ _ _ (by decide)
  | map entries => exact Render.endsVisibly_bracketed _ _ _ (by decide)
  | object fields => exact Render.endsVisibly_bracketed _ _ _ (by decide)

/-- A section of outputs ends in the line feed of its last line. -/
theorem State.outputChars_ends (s : State) :
    s.outputChars = [] ∨ ∃ cs, s.outputChars = cs ++ ['\n'] ∧ EndsVisibly cs := by
  unfold State.outputChars
  cases s.root? with
  | none => exact .inl rfl
  | some root =>
    dsimp only
    unfold Module.outputChars
    split_ifs with ho
    · exact .inl rfl
    · have hne : Entries.sorted root.outputs ≠ [] := mt Entries.sorted_eq_nil_iff.1 ho
      let last := (Entries.sorted root.outputs).getLast hne
      have hlast := (last.2.value.endsVisibly_chars 0).append (last.1.toList ++ [' ', '=', ' '])
      refine .inr ⟨_, ?_, hlast.append ("\nOutputs:\n\n".toList ++
        (Entries.sorted root.outputs).dropLast.flatMap Module.outputLine)⟩
      rw [flatMap_eq_append_getLast _ hne]
      simp [Module.outputLine, last]

namespace State

variable {s : State} (w : Walk)

/-- The text of a state is a reset and what ends visibly in front of the last line feed. -/
theorem text_eq_reset (hne : s.isEmpty = false) :
    ∃ cs, s.text w = Markup.Code.reset.token ++ (cs ++ ['\n']) ∧ EndsVisibly cs := by
  have hms : s.moduleList ≠ [] := by simpa [moduleList, isEmpty] using hne
  have hreset : EndsVisibly Markup.Code.reset.token :=
    endsVisibly_snoc ['[', 'r', 'e', 's', 'e', 't'] (by decide)
  let last := s.moduleList.getLast hms
  let front := s.moduleList.dropLast.flatMap (Module.text w) ++
    last.located.flatMap (Located.chars w)
  have hf : s.text w = Markup.Code.reset.token ++
      (front ++ (Markup.Code.reset.token ++ '\n' :: s.outputChars)) := by
    rw [text, flatMap_eq_append_getLast _ hms]
    simp [front, last, Module.text, resetLine]
  rw [hf]
  rcases s.outputChars_ends with ho | ⟨out, ho, hout⟩
  · exact ⟨front ++ Markup.Code.reset.token, by simp [ho], hreset.append front⟩
  · refine ⟨front ++ (Markup.Code.reset.token ++ '\n' :: out), by simp [ho], ?_⟩
    have he := hout.append (front ++ (Markup.Code.reset.token ++ ['\n']))
    simpa using he

/-- The text of a state starts with a bracket, and only its last line feed is white space at an
end. -/
theorem text_ends (hne : s.isEmpty = false) :
    ∃ cs, s.text w = '[' :: cs ++ ['\n'] ∧ EndsVisibly ('[' :: cs) := by
  have htoken : Markup.Code.reset.token = '[' :: "reset]".toList := by decide
  obtain ⟨cs, hcs, he⟩ := text_eq_reset w hne
  exact ⟨"reset]".toList ++ cs, by simp [hcs, htoken], he.append ('[' :: "reset]".toList)⟩

theorem trim_text (hne : s.isEmpty = false) : trim (s.text w) = (s.text w).dropLast := by
  obtain ⟨cs, hcs, he⟩ := text_ends w hne
  rw [hcs, trim, List.cons_append, trimStart_cons (by decide), ← List.cons_append,
    trimEnd_snoc_lineFeed he, List.dropLast_concat]

theorem text_eq_snoc (hne : s.isEmpty = false) :
    s.text w = (s.text w).dropLast ++ ['\n'] := by
  obtain ⟨cs, hcs, _⟩ := text_ends w hne
  rw [hcs, List.dropLast_concat]

/-- What is shown of a state when nothing stops it and its markup is kept. -/
theorem format_id_of_complete {w : Walk} (hne : s.isEmpty = false)
    (h : Located.stopped? w.schemas s.located = none) :
    s.format w id =
      (.ok (String.ofList (s.text w).dropLast), s.located.flatMap (Located.diagnostics w)) := by
  rw [format_of_complete id hne h]
  obtain ⟨cs, hcs, he⟩ := text_ends w hne
  have htrim : trim (s.text w).dropLast = (s.text w).dropLast := by
    rw [hcs, List.dropLast_concat, trim, trimStart_cons (by decide)]
    obtain ⟨front, c, hc, hb⟩ := he
    rw [hc]
    simp [trimEnd, trimStart, hb]
  rw [id, trim_text w hne, htrim]

end State

end StateText
