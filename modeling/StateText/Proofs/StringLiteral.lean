import StateText.Proofs.LiteralReader

/-!
# String literals on their line

A string literal ends at its last character and nowhere before: no quote inside it is free, no
character leaves the line, and no brace opens a template. `string_closed` has these together with
the string that is read back.
-/

namespace StateText.Literal

/-- What stands behind the first free quote; a backslash takes the character behind it along. -/
def behindQuote? : (escaped : Bool) → List Char → Option (List Char)
  | _, [] => none
  | true, _ :: cs => behindQuote? false cs
  | false, c :: cs => if c = '"' then some cs else behindQuote? (c == '\\') cs

theorem behindQuote?_cons {c : Char} (hq : c ≠ '"') (hb : c ≠ '\\') (cs : List Char) :
    behindQuote? false (c :: cs) = behindQuote? false cs := by
  rw [behindQuote?, if_neg hq, beq_false_of_ne hb]

theorem behindQuote?_append {xs : List Char} (h : ∀ x ∈ xs, x ≠ '"' ∧ x ≠ '\\') (cs : List Char) :
    behindQuote? false (xs ++ cs) = behindQuote? false cs := by
  induction xs with
  | nil => rfl
  | cons x xs ih =>
    obtain ⟨hx, hxs⟩ := List.forall_mem_cons.1 h
    rw [List.cons_append, behindQuote?_cons hx.1 hx.2, ih hxs]

theorem behindQuote?_escapeChar (c : Char) (cs : List Char) :
    behindQuote? false (escapeChar c ++ cs) = behindQuote? false cs := by
  rcases escapeChar_cases c with ⟨hc, hq, hb, _⟩ | ⟨xs, hc, hxs⟩
  · rw [hc, List.singleton_append, behindQuote?_cons hq hb]
  · obtain ⟨d, ds, rfl, hds⟩ := hxs.closed
    rw [hc, List.cons_append, List.cons_append, behindQuote?, if_neg (by decide), beq_self_eq_true,
      behindQuote?, behindQuote?_append hds]

theorem ne_of_isIntroducer {c : Char} (h : isIntroducer c = true) : c ≠ '"' ∧ c ≠ '\\' := by
  constructor <;> rintro rfl <;> exact absurd h (by decide)

theorem behindQuote?_body (cs t : List Char) :
    behindQuote? false (body cs ++ '"' :: t) = some t := by
  induction cs with
  | nil => rfl
  | cons c cs ih =>
    rw [body_cons]
    split_ifs with hi
    · obtain ⟨hq, hb⟩ := ne_of_isIntroducer hi.1
      rw [List.cons_append, List.cons_append, behindQuote?_cons hq hb, behindQuote?_cons hq hb, ih]
    · rw [List.append_assoc, behindQuote?_escapeChar, ih]

/-! ### Control characters -/

theorem not_isControl_of_mem_escapeChar {c d : Char} (h : d ∈ escapeChar c) :
    isControl d = false := by
  rcases escapeChar_cases c with ⟨hc, _, _, hcontrol⟩ | ⟨xs, hc, hxs⟩
  · rw [hc, List.mem_singleton] at h
    rw [h, hcontrol]
  · rw [hc] at h
    rcases List.mem_cons.1 h with rfl | h
    · decide
    · exact (hxs.visible d h).1

theorem not_isControl_of_isIntroducer {c : Char} (h : isIntroducer c = true) :
    isControl c = false := by
  simp only [isIntroducer, Bool.or_eq_true, beq_iff_eq] at h
  rcases h with rfl | rfl <;> decide

theorem not_isControl_of_mem_body {cs : List Char} : ∀ c ∈ body cs, isControl c = false := by
  induction cs with
  | nil => simp
  | cons d cs ih =>
    rw [body_cons]
    split_ifs with hi
    · have hd := not_isControl_of_isIntroducer hi.1
      exact List.forall_mem_cons.2 ⟨hd, List.forall_mem_cons.2 ⟨hd, ih⟩⟩
    · exact List.forall_mem_append.2 ⟨fun c hc => not_isControl_of_mem_escapeChar hc, ih⟩

theorem not_isControl_of_mem_stringChars {cs : List Char} :
    ∀ c ∈ stringChars cs, isControl c = false :=
  List.forall_mem_cons.2 ⟨by decide,
    List.forall_mem_append.2 ⟨not_isControl_of_mem_body, List.forall_mem_singleton.2 (by decide)⟩⟩

/-! ### Introducers -/

/-- Wherever an introducer stands in front of a brace, the same one stands in front of it. -/
def Doubled (cs : List Char) : Prop :=
  ∀ front c behind, cs = front ++ c :: '\x7b' :: behind → isIntroducer c = true →
    front.getLast? = some c

namespace Doubled

variable {c : Char} {cs : List Char}

theorem nil : Doubled [] := by
  intro front c behind h
  exact absurd h (by simp)

/-- A character that starts no template may stand in front. -/
theorem cons (h : Doubled cs) (hc : isIntroducer c = true → cs.head? ≠ some '\x7b') :
    Doubled (c :: cs) := by
  intro front d behind heq hd
  cases front with
  | nil =>
    obtain ⟨rfl, rfl⟩ := List.cons.inj heq
    exact absurd rfl (hc hd)
  | cons x front =>
    obtain ⟨rfl, hrest⟩ := List.cons.inj heq
    rw [List.getLast?_cons, h front d behind hrest hd, Option.getD_some]

/-- So may two introducers of one kind. -/
theorem twice (h : Doubled cs) (hc : isIntroducer c = true) : Doubled (c :: c :: cs) := by
  intro front d behind heq hd
  cases front with
  | nil =>
    obtain ⟨rfl, hrest⟩ := List.cons.inj heq
    rw [(List.cons.inj hrest).1, not_isIntroducer_brace] at hc
    cases hc
  | cons x front =>
    obtain ⟨rfl, hrest⟩ := List.cons.inj heq
    cases front with
    | nil => rw [(List.cons.inj hrest).1, List.getLast?_singleton]
    | cons y front =>
      rw [List.getLast?_cons_cons, List.getLast?_cons,
        h front d behind (List.cons.inj hrest).2 hd, Option.getD_some]

theorem append {xs : List Char} (h : Doubled cs) (hxs : ∀ x ∈ xs, isIntroducer x = false) :
    Doubled (xs ++ cs) := by
  induction xs with
  | nil => exact h
  | cons x xs ih =>
    obtain ⟨hx, hrest⟩ := List.forall_mem_cons.1 hxs
    exact (ih hrest).cons fun hi => absurd hi (by rw [hx]; decide)

end Doubled

theorem doubled_body (cs : List Char) : Doubled (body cs ++ ['"']) := by
  induction cs with
  | nil => exact Doubled.nil.cons fun hi => absurd hi (by decide)
  | cons c cs ih =>
    rw [body_cons]
    split_ifs with hi
    · exact ih.twice hi.1
    · rw [List.append_assoc]
      rcases escapeChar_cases c with ⟨hc, _⟩ | ⟨xs, hc, hxs⟩
      · rw [hc]
        exact ih.cons fun hc hbrace => hi ⟨hc, head?_of_head?_body hbrace⟩
      · rw [hc]
        exact ih.append (List.forall_mem_cons.2 ⟨by decide, fun x hx => (hxs.visible x hx).2⟩)

/-- A literal stands between two quotes, of which the second is the first free one behind the first.
It has no control character in it, an introducer in front of a brace is doubled, and the string is
read back. -/
theorem string_closed (s : String) :
    (∃ cs, string s = '"' :: cs ++ ['"'] ∧ behindQuote? false (cs ++ ['"']) = some []) ∧
      (∀ c ∈ string s, isControl c = false) ∧ Doubled (string s) ∧
      readString (string s) = some (s.toList, []) := by
  refine ⟨⟨body s.toList, rfl, behindQuote?_body _ _⟩, not_isControl_of_mem_stringChars, ?_, ?_⟩
  · exact (doubled_body s.toList).cons fun hi => absurd hi (by decide)
  · have hread := readString_stringChars s.toList []
    rwa [List.append_nil] at hread

example : string "$\x7b%$$\x7b" = "\"$$\x7b%$$$\x7b\"".toList := by decide

end StateText.Literal
