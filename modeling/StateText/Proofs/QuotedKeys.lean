import StateText.Address
import StateText.Value.Literal

/-!
# Quoted keys

An instance key is quoted like a string of a document, and a string value like a literal. The
literal is never the shorter one of the two, and `text_str_eq_iff` says for which strings they are
the same: the literal has no short escape for a backspace and a form feed, it escapes the control
characters above U+007E, and it doubles the introducer of a template.
-/

namespace StateText

namespace Literal

def IsShared (c : Char) : Prop :=
  c ≠ '\x08' ∧ c ≠ '\x0c' ∧ ¬ (0x7f ≤ c.toNat ∧ c.toNat ≤ 0x9f)

theorem escapeChar_of_plain {c : Char} (hq : c ≠ '"') (hb : c ≠ '\\') (hn : c ≠ '\n')
    (hr : c ≠ '\r') (ht : c ≠ '\t') :
    escapeChar c = if isControl c then '\\' :: 'u' :: hexCode c.toNat else [c] := by
  unfold escapeChar
  split <;> first | contradiction | rfl

theorem hexCode_eq : ∀ n < 0x20,
    hexCode n = ['0', '0', Json.hexDigit (n / 16), Json.hexDigit (n % 16)] := by
  decide

theorem escapeChar_eq_of_isShared {c : Char} (h : IsShared c) :
    Json.escapeChar c = escapeChar c := by
  obtain ⟨hbackspace, hfeed, hhigh⟩ := h
  unfold Json.escapeChar
  split
  · rfl
  · rfl
  · exact absurd rfl hbackspace
  · rfl
  · rfl
  · exact absurd rfl hfeed
  · rfl
  next hq hb _ ht hn _ hr =>
    rw [escapeChar_of_plain hq hb hn hr ht]
    by_cases hlow : c.toNat < 0x20
    · have hcontrol : isControl c = true := decide_eq_true (.inl hlow)
      rw [if_pos hlow, if_pos hcontrol, hexCode_eq c.toNat hlow]
    · have hcontrol : ¬ isControl c = true := by
        rw [isControl, decide_eq_true_eq]
        exact fun h => h.elim hlow hhigh
      rw [if_neg hlow, if_neg hcontrol]

/-- The control characters that a document shows as they are have a code in a literal. -/
theorem escapeChar_high {c : Char} (h : 0x7f ≤ c.toNat ∧ c.toNat ≤ 0x9f) :
    Json.escapeChar c = [c] ∧ escapeChar c = '\\' :: 'u' :: hexCode c.toNat := by
  have hne {d : Char} (hd : d.toNat < 0x7f) : c ≠ d := by
    rintro rfl
    omega
  constructor
  · unfold Json.escapeChar
    split
    case h_8 => exact if_neg (by omega)
    all_goals exact absurd rfl (hne (by decide))
  · rw [escapeChar_of_plain (hne (by decide)) (hne (by decide)) (hne (by decide))
      (hne (by decide)) (hne (by decide))]
    exact if_pos (decide_eq_true (.inr h))

theorem length_escapeChar_lt {c : Char} (h : ¬ IsShared c) :
    (Json.escapeChar c).length < (escapeChar c).length := by
  by_cases hbackspace : c = '\x08'
  · subst hbackspace
    decide
  by_cases hfeed : c = '\x0c'
  · subst hfeed
    decide
  have hhigh : 0x7f ≤ c.toNat ∧ c.toNat ≤ 0x9f :=
    Decidable.byContradiction fun hnot => h ⟨hbackspace, hfeed, hnot⟩
  obtain ⟨hdocument, hliteral⟩ := escapeChar_high hhigh
  rw [hdocument, hliteral]
  simp

/-- Every character is shared, and no template starts in the text. -/
def Agreeing (cs : List Char) : Prop :=
  (∀ c ∈ cs, IsShared c) ∧ ¬ ['$', '\x7b'] <:+: cs ∧ ¬ ['%', '\x7b'] <:+: cs

theorem agreeing_nil : Agreeing [] := by
  simp [Agreeing]

theorem agreeing_cons_iff {c : Char} {cs : List Char} :
    Agreeing (c :: cs) ↔
      ¬ (isIntroducer c ∧ cs.head? = some '\x7b') ∧ IsShared c ∧ Agreeing cs := by
  have hpair (d : Char) : [d, '\x7b'] <+: c :: cs ↔ c = d ∧ cs.head? = some '\x7b' := by
    rw [List.cons_prefix_cons, eq_comm]
    cases cs with
    | nil => simp
    | cons e cs => simp [eq_comm]
  have hintroducer : isIntroducer c = true ↔ c = '$' ∨ c = '%' := by simp [isIntroducer]
  rw [Agreeing, List.forall_mem_cons, List.infix_cons_iff, List.infix_cons_iff, hpair, hpair,
    hintroducer, Agreeing]
  constructor
  · rintro ⟨⟨hc, hcs⟩, hdollar, hpercent⟩
    refine ⟨?_, hc, hcs, fun h => hdollar (.inr h), fun h => hpercent (.inr h)⟩
    rintro ⟨rfl | rfl, hbrace⟩
    · exact hdollar (.inl ⟨rfl, hbrace⟩)
    · exact hpercent (.inl ⟨rfl, hbrace⟩)
  · rintro ⟨hopen, hc, hcs, hdollar, hpercent⟩
    refine ⟨⟨hc, hcs⟩, ?_, ?_⟩
    · rintro (h | h)
      · exact hopen ⟨.inl h.1, h.2⟩
      · exact hdollar h
    · rintro (h | h)
      · exact hopen ⟨.inr h.1, h.2⟩
      · exact hpercent h

/-- A doubled introducer is longer than the one of the document. -/
theorem escapeChar_of_isIntroducer {c : Char} (h : isIntroducer c = true) :
    Json.escapeChar c = [c] := by
  have hcases : c = '$' ∨ c = '%' := by simpa [isIntroducer] using h
  rcases hcases with rfl | rfl <;> rfl

theorem length_escapeChar_le (c : Char) :
    (Json.escapeChar c).length ≤ (escapeChar c).length := by
  by_cases h : IsShared c
  · exact Nat.le_of_eq (congrArg List.length (escapeChar_eq_of_isShared h))
  · exact Nat.le_of_lt (length_escapeChar_lt h)

/-- A literal is no shorter than the document's form, and longer if there is a difference. -/
theorem body_spec (cs : List Char) :
    (Agreeing cs → cs.flatMap Json.escapeChar = body cs) ∧
      (¬ Agreeing cs → (cs.flatMap Json.escapeChar).length < (body cs).length) := by
  induction cs with
  | nil => exact ⟨fun _ => rfl, fun h => absurd agreeing_nil h⟩
  | cons c cs ih =>
    obtain ⟨hsame, hlonger⟩ := ih
    have hle : (cs.flatMap Json.escapeChar).length ≤ (body cs).length := by
      by_cases h : Agreeing cs
      · exact Nat.le_of_eq (congrArg List.length (hsame h))
      · exact Nat.le_of_lt (hlonger h)
    rw [agreeing_cons_iff, List.flatMap_cons, body_cons]
    by_cases hopen : isIntroducer c ∧ cs.head? = some '\x7b'
    · rw [if_pos hopen, escapeChar_of_isIntroducer hopen.1]
      refine ⟨fun h => absurd hopen h.1, fun _ => ?_⟩
      simp only [List.length_append, List.length_cons, List.length_nil]
      omega
    · rw [if_neg hopen]
      constructor
      · rintro ⟨_, hc, hcs⟩
        rw [escapeChar_eq_of_isShared hc, hsame hcs]
      · intro hnot
        rw [List.length_append, List.length_append]
        have hchar := length_escapeChar_le c
        by_cases hc : IsShared c
        · have hrest := hlonger fun hcs => hnot ⟨hopen, hc, hcs⟩
          omega
        · have hshort := length_escapeChar_lt hc
          omega

theorem flatMap_escapeChar_eq_body_iff (cs : List Char) :
    cs.flatMap Json.escapeChar = body cs ↔ Agreeing cs := by
  obtain ⟨hsame, hlonger⟩ := body_spec cs
  refine ⟨fun h => ?_, hsame⟩
  apply Classical.byContradiction
  intro hnot
  exact Nat.ne_of_lt (hlonger hnot) (congrArg List.length h)

end Literal

namespace InstanceKey

/-- A string key shows the literal of its string in brackets exactly if the string has no backspace,
no form feed, no control character above U+007E and no introducer in front of a brace. -/
theorem text_str_eq_iff (s : String) :
    (str s).text = "[" ++ String.ofList (Literal.string s) ++ "]" ↔
      (∀ c ∈ s.toList, c ≠ '\x08' ∧ c ≠ '\x0c' ∧ ¬ (0x7f ≤ c.toNat ∧ c.toNat ≤ 0x9f)) ∧
        ¬ ['$', '\x7b'] <:+: s.toList ∧ ¬ ['%', '\x7b'] <:+: s.toList := by
  have htext : (str s).text = "[" ++ String.ofList (Json.stringChars s.toList) ++ "]" := rfl
  have hinner : (str s).text = "[" ++ String.ofList (Literal.string s) ++ "]" ↔
      s.toList.flatMap Json.escapeChar = Literal.body s.toList := by
    rw [htext, Json.stringChars, Literal.string, Literal.stringChars, ← String.toList_inj]
    simp
  rw [hinner, Literal.flatMap_escapeChar_eq_body_iff]
  exact Iff.rfl

/-- A key that starts a template is quoted in another way than the string in it. -/
theorem text_str_ne_literal :
    (str "$\x7bx\x7d").text ≠ "[" ++ String.ofList (Literal.string "$\x7bx\x7d") ++ "]" := by
  decide

end InstanceKey

end StateText
