import StateText.Proofs.Cursor
import StateText.Proofs.OneLine

/-!
# Nesting

The indentation of a value shows its nesting. Words, string literals, lines and brackets are laid
out each by itself, and so is a value along its rows. `render_nested` says so of whole values.
-/

namespace StateText

open Render

namespace Cursor

variable {n : Nat} {due : List Char} {fresh : Bool}

def onLine (n : Nat) (due : List Char) (fresh : Bool) : Cursor :=
  ⟨due, .plain, n + level * due.length, fresh⟩

def inLiteral (n : Nat) (due : List Char) : Cursor :=
  ⟨due, .literal, n + level * due.length, false⟩

def lineStart (due : List Char) : Cursor := ⟨due, .plain, 0, true⟩

theorem aligned_onLine {c : Char} (hclosing : isClosing c = false)
    (hvisible : fresh = true → Text.isBlank c = false) : Aligned n (onLine n due fresh) c where
  feed _ := rfl
  visible hf _ := hvisible hf
  width _ _ := by
    rw [depth, hclosing]
    rfl

def isText (c : Char) : Bool := !isMark c && c != '\n'

def isWord (c : Char) : Bool := !isMark c && !Text.isBlank c

theorem isText_of_isWord {c : Char} (h : isWord c = true) : isText c = true := by
  simp only [isWord, isText, Bool.and_eq_true, Bool.not_eq_true', bne_iff_ne, ne_eq] at h ⊢
  refine ⟨h.1, ?_⟩
  rintro rfl
  exact absurd h.2 (by decide)

theorem laid_char {c : Char} (h : isText c = true)
    (hvisible : fresh = true → Text.isBlank c = false) :
    Laid n (onLine n due fresh) [c] (onLine n due false) := by
  simp only [isText, Bool.and_eq_true, Bool.not_eq_true', bne_iff_ne, ne_eq] at h
  obtain ⟨hmark, hfeed⟩ := h
  have hclosing : isClosing c = false := (Bool.or_eq_false_iff.1 (Bool.or_eq_false_iff.1 hmark).1).2
  have hspace : ¬ (c = ' ' ∧ (onLine n due fresh).fresh = true) := by
    rintro ⟨rfl, hf⟩
    exact absurd (hvisible hf) (by decide)
  refine .single (aligned_onLine hclosing hvisible) ?_
  rw [next_eq_past rfl hmark, past, if_neg hfeed, if_neg hspace]
  rfl

theorem laid_text {cs : List Char} (h : cs.all isText = true) :
    Laid n (onLine n due false) cs (onLine n due false) := by
  induction cs with
  | nil => exact .nil
  | cons c cs ih =>
    rw [List.all_cons, Bool.and_eq_true] at h
    have hfirst : Laid n (onLine n due false) [c] (onLine n due false) := laid_char h.1 nofun
    exact hfirst.append (ih h.2)

theorem laid_word {cs : List Char} (hne : cs ≠ []) (h : cs.all isWord = true) :
    Laid n (onLine n due fresh) cs (onLine n due false) := by
  cases cs with
  | nil => exact absurd rfl hne
  | cons c cs =>
    rw [List.all_cons, Bool.and_eq_true] at h
    have hvisible : Text.isBlank c = false := by
      simpa using (Bool.and_eq_true_iff.1 h.1).2
    have hrest : cs.all isText = true := by
      rw [List.all_eq_true] at h ⊢
      exact fun d hd => isText_of_isWord (h.2 d hd)
    exact (laid_char (isText_of_isWord h.1) fun _ => hvisible).append (laid_text hrest)

/-! ### String literals -/

theorem aligned_inLiteral {k : Cursor} {c : Char} (hplace : k.place ≠ .plain)
    (hfresh : k.fresh = false) (hfeed : c ≠ '\n') : Aligned n k c where
  feed hc := absurd hc hfeed
  visible hf := by
    rw [hfresh] at hf
    cases hf
  width hplain := absurd hplain hplace

theorem laid_inLiteral {c : Char} (hquote : c ≠ '"') (hslash : c ≠ '\\') (hfeed : c ≠ '\n') :
    Laid n (inLiteral n due) [c] (inLiteral n due) := by
  refine .single (aligned_inLiteral nofun rfl hfeed) ?_
  simp [next, inLiteral, past, hquote, hslash, hfeed]

theorem laid_escape {c : Char} (hfeed : c ≠ '\n') :
    Laid n (inLiteral n due) ['\\', c] (inLiteral n due) := by
  have hslash : Aligned n (inLiteral n due) '\\' := aligned_inLiteral nofun rfl (by decide)
  refine .cons hslash rfl (.single (aligned_inLiteral nofun rfl hfeed) ?_)
  simp [next, inLiteral, past, hfeed]

theorem laid_quote : Laid n (onLine n due fresh) ['"'] (inLiteral n due) :=
  .single (aligned_onLine rfl fun _ => by decide) rfl

theorem laid_endQuote : Laid n (inLiteral n due) ['"'] (onLine n due false) :=
  .single (aligned_inLiteral nofun rfl (by decide)) rfl

theorem laid_literal {cs : List Char} (h : ∀ c ∈ cs, c ≠ '"' ∧ c ≠ '\\' ∧ c ≠ '\n') :
    Laid n (inLiteral n due) cs (inLiteral n due) := by
  induction cs with
  | nil => exact .nil
  | cons c cs ih =>
    obtain ⟨⟨hquote, hslash, hfeed⟩, hcs⟩ := List.forall_mem_cons.1 h
    exact (laid_inLiteral hquote hslash hfeed).append (ih hcs)

theorem laid_escapeChar (c : Char) :
    Laid n (inLiteral n due) (Literal.escapeChar c) (inLiteral n due) := by
  have hfeed {d : Char} (hd : d ∈ Literal.escapeChar c) : d ≠ '\n' := by
    rintro rfl
    exact absurd (Literal.not_isControl_of_mem_escapeChar hd) (by decide)
  rcases Literal.escapeChar_cases c with ⟨hc, hquote, hslash, _⟩ | ⟨xs, hc, hxs⟩
  · rw [hc] at hfeed ⊢
    exact laid_inLiteral hquote hslash (hfeed List.mem_cons_self)
  · obtain ⟨d, ds, rfl, hds⟩ := hxs.closed
    rw [hc] at hfeed ⊢
    have hrest : Laid n (inLiteral n due) ds (inLiteral n due) :=
      laid_literal fun e he => ⟨(hds e he).1, (hds e he).2, hfeed (by simp [he])⟩
    exact (laid_escape (hfeed (by simp))).append hrest

theorem laid_body (cs : List Char) :
    Laid n (inLiteral n due) (Literal.body cs) (inLiteral n due) := by
  induction cs with
  | nil => exact .nil
  | cons c cs ih =>
    rw [Literal.body_cons]
    split_ifs with hc
    · obtain ⟨hquote, hslash⟩ := Literal.ne_of_isIntroducer hc.1
      have hfeed : c ≠ '\n' := by
        rintro rfl
        exact absurd hc.1 (by decide)
      have hintroducer : Laid n (inLiteral n due) [c] (inLiteral n due) :=
        laid_inLiteral hquote hslash hfeed
      exact hintroducer.append (hintroducer.append ih)
    · exact (laid_escapeChar c).append ih

/-- No bracket in a string literal counts. -/
theorem laid_stringChars (cs : List Char) :
    Laid n (onLine n due fresh) (Literal.stringChars cs) (onLine n due false) :=
  laid_quote.append ((laid_body cs).append laid_endQuote)

/-! ### Lines -/

theorem aligned_of_not_isMark {k : Cursor} {c : Char} (hplain : k.place = .plain)
    (hmark : isMark c = false) (hspace : k.fresh = true → c = ' ') : Aligned n k c where
  feed _ := hplain
  visible hfresh hc := absurd (hspace hfresh) hc
  width _ hc := by
    simp only [isMark, Bool.or_eq_false_iff] at hmark
    rcases hc with ⟨hfresh, hc⟩ | hopening | hclosing
    · exact absurd (hspace hfresh) hc
    · rw [hmark.2] at hopening
      cases hopening
    · rw [hmark.1.2] at hclosing
      cases hclosing

theorem laid_spaces (due : List Char) (width blanks : Nat) :
    Laid n ⟨due, .plain, width, true⟩ (Text.spaces blanks) ⟨due, .plain, width + blanks, true⟩ := by
  induction blanks generalizing width with
  | zero => exact .nil
  | succ blanks ih =>
    have hrest := ih (width + 1)
    rw [Nat.add_right_comm] at hrest
    exact .cons (aligned_of_not_isMark rfl rfl fun _ => rfl) rfl hrest

theorem laid_indent (blanks : Nat) :
    Laid n (lineStart due) (Text.spaces blanks) ⟨due, .plain, blanks, true⟩ := by
  have hspaces := laid_spaces (n := n) due 0 blanks
  rwa [Nat.zero_add] at hspaces

theorem laid_feed (width : Nat) : Laid n ⟨due, .plain, width, false⟩ ['\n'] (lineStart due) :=
  .single (aligned_of_not_isMark rfl rfl nofun) rfl

/-! ### Brackets -/

section Brackets

variable {opening closing : Char}

theorem closing?_of_brackets? {v : Value} (h : v.brackets? = some (opening, closing)) :
    closing? opening = some closing := by
  rcases Value.brackets?_cases h with ⟨rfl, rfl⟩ | ⟨rfl, rfl⟩ <;> rfl

/-- What stands between the brackets is a level further in. -/
theorem inner_eq (n : Nat) (due : List Char) (closing : Char) :
    n + level * due.length + level = n + level * (closing :: due).length := by
  rw [List.length_cons, Nat.mul_succ, Nat.add_assoc]

theorem laid_opening (h : closing? opening = some closing) :
    Laid n (onLine n due fresh) [opening]
      ⟨closing :: due, .plain, n + level * due.length, false⟩ := by
  rcases closing?_cases h with ⟨rfl, rfl⟩ | ⟨rfl, rfl⟩
  · exact .single (aligned_onLine rfl fun _ => by decide) rfl
  · exact .single (aligned_onLine rfl fun _ => by decide) rfl

theorem laid_closing (h : closing? opening = some closing) :
    Laid n ⟨closing :: due, .plain, n + level * due.length, fresh⟩ [closing]
      (onLine n due false) := by
  rcases closing?_cases h with ⟨rfl, rfl⟩ | ⟨rfl, rfl⟩
  · exact .single ⟨fun _ => rfl, fun _ _ => by decide, fun _ _ => rfl⟩ rfl
  · exact .single ⟨fun _ => rfl, fun _ _ => by decide, fun _ _ => rfl⟩ rfl

theorem laid_itemLines {items : List (List Char)}
    (hitems : ∀ item ∈ items, Laid n (onLine n due true) item (onLine n due false)) :
    Laid n (lineStart due) (itemLines (n + level * due.length) items) (lineStart due) := by
  induction items with
  | nil => exact .nil
  | cons item items ih =>
    obtain ⟨hitem, hrest⟩ := List.forall_mem_cons.1 hitems
    have hcomma : Laid n (onLine n due false) (if items = [] then [] else [','])
        (onLine n due false) := by
      split_ifs
      · exact .nil
      · exact laid_text rfl
    rw [itemLines_cons]
    exact (laid_indent _).append (hitem.append (hcomma.append ((laid_feed _).append (ih hrest))))

theorem laid_bracketed (h : closing? opening = some closing) {items : List (List Char)}
    (hitems : ∀ item ∈ items,
      Laid n (onLine n (closing :: due) true) item (onLine n (closing :: due) false)) :
    Laid n (onLine n due fresh) (bracketed opening closing (n + level * due.length) items)
      (onLine n due false) := by
  by_cases hne : items = []
  · subst hne
    exact (laid_opening h).append (laid_closing h)
  · rw [bracketed, if_neg hne, inner_eq n due closing]
    simp only [List.append_assoc, List.cons_append]
    exact (laid_opening h).append ((laid_feed _).append ((laid_itemLines hitems).append
      ((laid_indent _).append (laid_closing h))))

end Brackets

/-! ### Words -/

theorem isWord_of {p : Char → Bool} (hp : ['"', '[', ']', '\x7b', '\x7d'].all (!p ·) = true)
    {c : Char} (hc : p c = true) (hvisible : Text.isBlank c = false) : isWord c = true := by
  have hmark : isMark c = false := by
    refine Bool.eq_false_iff.2 fun hmark => ?_
    have hnot := List.all_eq_true.1 hp c (mem_of_isMark hmark)
    rw [hc] at hnot
    cases hnot
  rw [isWord, hmark, hvisible]
  rfl

theorem laid_numeral {cs : List Char} (h : Number.Numeral cs) :
    Laid n (onLine n due fresh) cs (onLine n due false) := by
  refine laid_word h.ne_nil (List.all_eq_true.2 fun c hc => ?_)
  have hnumeral := h.forall_isNumeral c hc
  exact isWord_of rfl hnumeral (Number.isBlank_of_isNumeral hnumeral)

theorem isBlank_of_isNameRest {c : Char} (h : Literal.isNameRest c = true) :
    Text.isBlank c = false := by
  have hbetween {a b : Char} (ha : 0x21 ≤ a.toNat) (hb : b.toNat ≤ 0x7e) (hlow : a.val ≤ c.val)
      (hhigh : c.val ≤ b.val) : Text.isBlank c = false := by
    have hlow : a.toNat ≤ c.toNat := UInt32.le_iff_toNat_le.1 hlow
    have hhigh : c.toNat ≤ b.toNat := UInt32.le_iff_toNat_le.1 hhigh
    simp only [Text.isBlank, decide_eq_false_iff_not]
    omega
  simp only [Literal.isNameRest, Char.isAlphanum, Bool.or_eq_true, beq_iff_eq] at h
  rcases h with ((halpha | hdigit) | rfl) | rfl
  · rcases Bool.or_eq_true_iff.1 halpha with hupper | hlower
    · obtain ⟨hlow, hhigh⟩ := of_decide_eq_true hupper
      exact hbetween (by decide) (by decide) hlow hhigh
    · obtain ⟨hlow, hhigh⟩ := Bool.and_eq_true_iff.1 hlower
      exact hbetween (by decide) (by decide) (of_decide_eq_true hlow) (of_decide_eq_true hhigh)
  · obtain ⟨hlow, hhigh⟩ := Bool.and_eq_true_iff.1 hdigit
    exact hbetween (by decide) (by decide) (of_decide_eq_true hlow) (of_decide_eq_true hhigh)
  · decide
  · decide

theorem laid_key (name : String) :
    Laid n (onLine n due fresh) (Literal.key name) (onLine n due false) := by
  unfold Literal.key Literal.keyChars
  split_ifs with h
  · obtain ⟨c, cs, hcs, _, hall⟩ := Literal.exists_cons_of_isIdentifier h
    have hne : name.toList ≠ [] := by
      rw [hcs]
      exact List.cons_ne_nil c cs
    refine laid_word hne (List.all_eq_true.2 fun d hd => ?_)
    exact isWord_of rfl (hall d hd) (isBlank_of_isNameRest (hall d hd))
  · exact laid_stringChars _

theorem laid_label (name : String) :
    Laid n (onLine n due fresh) (Value.label name) (onLine n due false) :=
  (laid_key name).append (laid_text rfl)

/-! ### Values -/

variable {v : Value}

theorem laid_scalar (h : v.brackets? = none) (indent : Nat) :
    Laid n (onLine n due fresh) (v.chars indent) (onLine n due false) := by
  have hword (word : List Char) (hne : word ≠ []) (h : word.all isWord = true) :
      Laid n (onLine n due fresh) word (onLine n due false) := laid_word hne h
  cases v with
  | null => exact hword "null".toList (by decide) rfl
  | string s => exact laid_stringChars s.toList
  | number number => exact laid_numeral (Number.numeral_literal number)
  | bool b =>
    cases b with
    | true => exact hword "true".toList (by decide) rfl
    | false => exact hword "false".toList (by decide) rfl
  | _ => cases h

/-- What stands in front of the value of a row may have been the first on its line. -/
theorem exists_laid_label {r : List Char × Value} (hr : r ∈ v.rows) (n : Nat) (due : List Char)
    (fresh : Bool) : ∃ fresh', Laid n (onLine n due fresh) r.1 (onLine n due fresh') := by
  rcases Value.label_of_mem_rows hr with h | ⟨name, h⟩
  · exact ⟨fresh, h ▸ .nil⟩
  · exact ⟨false, h ▸ laid_label name⟩

/-- Rows are laid out if their values are, wherever these stand on their lines. -/
theorem laid_rows (h : ∀ r ∈ v.rows, ∀ fresh, Laid n (onLine n due fresh)
      (r.2.chars (n + level * due.length)) (onLine n due false)) :
    ∀ item ∈ v.rows.map fun r => r.1 ++ r.2.chars (n + level * due.length),
      Laid n (onLine n due true) item (onLine n due false) := by
  intro item hitem
  obtain ⟨r, hr, rfl⟩ := List.mem_map.1 hitem
  obtain ⟨fresh, hlabel⟩ := exists_laid_label hr n due true
  exact hlabel.append (h r hr fresh)

theorem laid_chars (v : Value) (due : List Char) (fresh : Bool) :
    Laid n (onLine n due fresh) (v.chars (n + level * due.length)) (onLine n due false) := by
  induction v using Value.rows_induction generalizing due fresh with
  | scalar v hv => exact laid_scalar hv _
  | collection v opening closing hv ih =>
    rw [Value.chars_eq_bracketed hv, inner_eq n due closing]
    exact laid_bracketed (closing?_of_brackets? hv) (laid_rows fun r hr => ih r hr (closing :: due))

/-! ### The way to an element -/

theorem exists_front_itemLines {item : List Char} {items : List (List Char)} (h : item ∈ items)
    (hitems : ∀ item ∈ items, Laid n (onLine n due true) item (onLine n due false)) :
    ∃ front, front ++ item <+: itemLines (n + level * due.length) items ∧
      Laid n (lineStart due) front (onLine n due true) := by
  induction items with
  | nil => exact absurd h List.not_mem_nil
  | cons first items ih =>
    obtain ⟨hfirst, hrest⟩ := List.forall_mem_cons.1 hitems
    rw [itemLines_cons]
    rcases List.mem_cons.1 h with rfl | h
    · refine ⟨Text.spaces (n + level * due.length), ?_, laid_indent _⟩
      exact (List.prefix_append_right_inj _).2 (List.prefix_append _ _)
    · obtain ⟨front, hlines, hfront⟩ := ih h hrest
      have hcomma : Laid n (onLine n due false) [','] (onLine n due false) :=
        laid_text rfl
      refine ⟨Text.spaces (n + level * due.length) ++ (first ++ ([','] ++ (['\n'] ++ front))), ?_,
        (laid_indent _).append (hfirst.append (hcomma.append ((laid_feed _).append hfront)))⟩
      rw [if_neg (List.ne_nil_of_mem h)]
      simp only [List.append_assoc, List.cons_append, List.nil_append]
      simpa only [List.prefix_append_right_inj, List.cons_prefix_cons, true_and] using hlines

theorem exists_front_bracketed {opening closing : Char} (h : closing? opening = some closing)
    {item : List Char} {items : List (List Char)} (hmem : item ∈ items)
    (hitems : ∀ item ∈ items,
      Laid n (onLine n (closing :: due) true) item (onLine n (closing :: due) false)) :
    ∃ front, front ++ item <+: bracketed opening closing (n + level * due.length) items ∧
      Laid n (onLine n due fresh) front (onLine n (closing :: due) true) := by
  obtain ⟨front, hlines, hfront⟩ := exists_front_itemLines hmem hitems
  refine ⟨[opening] ++ (['\n'] ++ front), ?_, (laid_opening h).append ((laid_feed _).append hfront)⟩
  rw [bracketed, if_neg (List.ne_nil_of_mem hmem), inner_eq n due closing]
  simp only [List.append_assoc, List.cons_append, List.nil_append, List.cons_prefix_cons, true_and]
  exact hlines.trans (List.prefix_append _ _)

end Cursor

open Cursor

namespace Value

/-- `w` is `N` levels inside of the value. -/
inductive Holds (w : Value) : Nat → Value → Prop
  | self : Holds w 0 w
  | element {N : Nat} {u v : Value} (mem : u ∈ v.elements) (holds : Holds w N u) :
      Holds w (N + 1) v

theorem exists_front_of_holds {w v : Value} {N : Nat} (h : Holds w N v) (n : Nat)
    (due : List Char) (fresh : Bool) : ∃ front due' fresh', due'.length = due.length + N ∧
      front ++ w.chars (n + level * due'.length) <+: v.chars (n + level * due.length) ∧
        Laid n (onLine n due fresh) front (onLine n due' fresh') := by
  induction h generalizing due fresh with
  | self => exact ⟨[], due, fresh, rfl, List.prefix_rfl, .nil⟩
  | @element N u v hu _ ih =>
    obtain ⟨r, hr, rfl⟩ := exists_row_of_mem_elements hu
    obtain ⟨opening, closing, hv⟩ := exists_brackets_of_mem_rows hr
    have hrows := laid_rows (n := n) fun r (_ : r ∈ v.rows) => laid_chars r.2 (closing :: due)
    obtain ⟨front, hprefix, hfront⟩ :=
      exists_front_bracketed (closing?_of_brackets? hv) (List.mem_map_of_mem hr) hrows
    obtain ⟨fresh', hlabel⟩ := exists_laid_label hr n (closing :: due) true
    obtain ⟨front', due', fresh'', hlength, hinner, hfront'⟩ := ih (closing :: due) fresh'
    refine ⟨front ++ (r.1 ++ front'), due', fresh'', ?_, ?_,
      hfront.append (hlabel.append hfront')⟩
    · rw [hlength, List.length_cons, Nat.add_right_comm, Nat.add_assoc]
    · rw [chars_eq_bracketed hv, inner_eq n due closing]
      refine List.IsPrefix.trans ?_ hprefix
      simpa only [List.append_assoc, List.prefix_append_right_inj] using hinner

theorem lineFeed_not_mem_chars_iff (v : Value) (indent : Nat) :
    '\n' ∉ v.chars indent ↔ v.elements = [] := by
  rw [← rows_eq_nil_iff]
  cases hv : v.brackets? with
  | none =>
    refine ⟨fun _ => ?_, fun _ => lineFeed_not_mem_chars hv indent⟩
    refine List.eq_nil_iff_forall_not_mem.2 fun r hr => ?_
    obtain ⟨_, _, hsome⟩ := exists_brackets_of_mem_rows hr
    rw [hv] at hsome
    cases hsome
  | some b =>
    obtain ⟨opening, closing⟩ := b
    rw [chars_eq_bracketed hv, bracketed]
    split_ifs with hrows
    · refine ⟨fun _ => List.map_eq_nil_iff.1 hrows, fun _ => ?_⟩
      rcases brackets?_cases hv with ⟨rfl, rfl⟩ | ⟨rfl, rfl⟩ <;> decide
    · exact ⟨fun h => absurd (by simp) h, fun h => absurd (List.map_eq_nil_iff.2 h) hrows⟩

/-- The brackets of a value match, and each line is indented by the brackets that are open around
it. Only what has elements takes line breaks, and an element stands as many levels in as it is
levels deep. -/
theorem render_nested (v : Value) (n : Nat) :
    Nested n (v.render n).toList ∧ ('\n' ∉ (v.render n).toList ↔ v.elements = []) ∧
      ∀ w N, Holds w N v → ∃ front behind k,
        (v.render n).toList = front ++ (w.render (n + level * N)).toList ++ behind ∧
          (start n).walk front = some k ∧ k.place = .plain ∧ k.due.length = N ∧
            k.width = n + level * N := by
  refine ⟨?_, ?_, fun w N h => ?_⟩
  · rw [toList_render]
    exact (laid_chars v [] false).nested
  · rw [toList_render]
    exact lineFeed_not_mem_chars_iff v n
  · obtain ⟨front, due, fresh, hlength, ⟨behind, hchars⟩, hfront⟩ :=
      exists_front_of_holds h n [] false
    rw [List.length_nil, Nat.zero_add] at hlength
    rw [hlength] at hchars
    refine ⟨front, behind, onLine n due fresh, ?_, hfront.walk_eq, rfl, hlength, ?_⟩
    · rw [toList_render, toList_render, hchars]
      rfl
    · rw [onLine, hlength]

/-- Brackets in a string, an empty map, and an object that is written without its only field. -/
theorem render_nested_mixed :
    let w : Value := .string "]\x7b"
    let v : Value := .map [("k", .set [.map [], w, .object [("a", .null)]])]
    let text := "\x7b\n     k = [\n         \x7b\x7d,\n" ++
      "         \"]\x7b\",\n         \x7b\x7d\n     ]\n \x7d"
    Holds w 2 v ∧ (v.render 1).toList = text.toList ∧ Nested 1 text.toList ∧
      ∃ front behind k, text.toList = front ++ (w.render 9).toList ++ behind ∧
        (start 1).walk front = some k ∧ k.place = .plain ∧ k.due.length = 2 ∧ k.width = 9 := by
  intro w v text
  have hset : Holds w 1 (.set [.map [], w, .object [("a", .null)]]) :=
    .element (List.mem_cons_of_mem _ List.mem_cons_self) .self
  have hw : Holds w 2 v := .element List.mem_cons_self hset
  have htext : (v.render 1).toList = text.toList := by
    rw [toList_render]
    decide
  obtain ⟨hnested, _, hholds⟩ := render_nested v 1
  rw [htext] at hnested hholds
  exact ⟨hw, htext, hnested, hholds w 2 hw⟩

end Value

end StateText
