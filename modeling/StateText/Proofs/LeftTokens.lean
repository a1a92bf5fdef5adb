import StateText.Proofs.Tokens

/-!
# Tokens that are left

Taking the tokens out of a text joins what stands around them, in one pass and not again. The
stretches between them have no token of their own, so a token that is left stood around others:
`strip_leaves_interrupted`.
-/

namespace StateText.Markup

/-! ### Tokens as words -/

theorem without_eq (words : List (List Char)) (skip : Nat) (cs : List Char) :
    without words skip cs = without words 0 (cs.drop skip) := by
  induction cs generalizing skip with
  | nil => cases skip <;> simp [without]
  | cons c cs ih =>
    cases skip with
    | zero => rfl
    | succ skip => rw [without, ih, List.drop_succ_cons]

theorem find?_token (cs : List Char) :
    ((Code.all.map Code.token).find? fun word => word.isPrefixOf cs) =
      (code? cs).map Code.token := by
  rw [List.find?_map]
  rfl

theorem erase_of_code? {cs : List Char} {code : Code} (h : code? cs = some code) :
    erase cs = erase (cs.drop code.token.length) := by
  cases cs with
  | nil => cases h
  | cons c cs =>
    obtain ⟨k, hk⟩ : ∃ k, code.token.length = k + 1 := ⟨_, rfl⟩
    rw [erase, without, find?_token, h, Option.map_some]
    dsimp only
    rw [without_eq, hk, List.drop_succ_cons, Nat.add_sub_cancel, erase]

theorem erase_cons {c : Char} {cs : List Char} (h : code? (c :: cs) = none) :
    erase (c :: cs) = c :: erase cs := by
  rw [erase, without, find?_token, h]
  rfl

theorem strip_eq_erase (cs : List Char) : strip cs = erase cs := by
  induction cs using segments_induction with
  | nil => rfl
  | token cs code hcode ih => rw [strip_of_code? hcode, ih, erase_of_code? hcode]
  | char c cs hcode ih => rw [strip_cons hcode, ih, erase_cons hcode]

/-! ### Stretches between tokens -/

theorem TokenFree.cons {c : Char} {cs : List Char} (h : TokenFree cs)
    (hfront : ∀ code : Code, ¬ code.token <+: c :: cs) : TokenFree (c :: cs) :=
  fun code hstands => (List.infix_cons_iff.1 hstands).elim (hfront code) (h code)

theorem exists_first_token (cs : List Char) : TokenFree cs ∨
    ∃ (front : List Char) (code : Code) (behind : List Char), TokenFree front ∧
      cs = front ++ (code.token ++ behind) := by
  have hnil : TokenFree [] := tokenFree_of_not_mem List.not_mem_nil
  induction cs using segments_induction with
  | nil => exact .inl hnil
  | token cs code hcode ih =>
    obtain ⟨behind, rfl⟩ := token_prefix_of_code? hcode
    exact .inr ⟨[], code, behind, hnil, rfl⟩
  | char c cs hcode ih =>
    have hnone := code?_eq_none_iff.1 hcode
    rcases ih with hfree | ⟨front, code, behind, hfront, rfl⟩
    · exact .inl (hfree.cons hnone)
    · refine .inr ⟨c :: front, code, behind, hfront.cons fun other h => hnone other ?_, rfl⟩
      exact h.trans (List.prefix_append (c :: front) _)

/-- Induction along the stretches of a text: what holds of one without tokens, and of one with a
token and any text behind it. -/
theorem stretches_induction {P : List Char → Prop} (free : ∀ cs, TokenFree cs → P cs)
    (token : ∀ (front : List Char) (code : Code) (behind : List Char), TokenFree front →
      P behind → P (front ++ (code.token ++ behind)))
    (cs : List Char) : P cs := by
  induction hn : cs.length using Nat.strongRecOn generalizing cs with
  | ind n ih =>
    subst hn
    rcases exists_first_token cs with hfree | ⟨front, code, behind, hfront, rfl⟩
    · exact free cs hfree
    · have hpos := code.length_token_pos
      refine token front code behind hfront (ih _ ?_ behind rfl)
      rw [List.length_append, List.length_append]
      omega

theorem TokenFree.strip_append {front : List Char} (h : TokenFree front) (code : Code)
    (behind : List Char) : strip (front ++ (code.token ++ behind)) = front ++ strip behind := by
  rw [strip_append_token, h.strip_eq]

theorem strip_sublist (cs : List Char) : (strip cs).Sublist cs := by
  induction cs using stretches_induction with
  | free cs h => rw [h.strip_eq]
  | token front code behind hfront ih =>
    rw [hfront.strip_append]
    exact (List.Sublist.refl front).append (ih.trans (List.sublist_append_right _ _))

/-- Any token in a text is taken out, so a text that stays as it is has none. -/
theorem strip_eq_self_iff {cs : List Char} : strip cs = cs ↔ TokenFree cs := by
  refine ⟨fun h => ?_, TokenFree.strip_eq⟩
  rcases exists_first_token cs with hfree | ⟨front, code, behind, hfront, rfl⟩
  · exact hfree
  · have hpos := code.length_token_pos
    have hlength := (strip_sublist behind).length_le
    have hsame := congrArg List.length h
    rw [hfront.strip_append, List.length_append, List.length_append, List.length_append] at hsame
    omega

/-! ### Tokens around tokens -/

/-- The token stands around others: without these, its start ends in front of one of them and its
rest begins behind it. -/
def Code.Interrupted (code : Code) (cs : List Char) : Prop :=
  ∃ (inner : Code) (front behind start rest : List Char),
    cs = front ++ (inner.token ++ behind) ∧ code.token = start ++ rest ∧ start ≠ [] ∧ rest ≠ [] ∧
      start <:+ strip front ∧ rest <+: strip behind

namespace Code.Interrupted

variable {code : Code} {cs : List Char}

theorem token_left (h : code.Interrupted cs) : code.token <:+: strip cs := by
  obtain ⟨inner, front, behind, start, rest, rfl, htoken, _, _, hstart, hrest⟩ := h
  rw [strip_append_token]
  exact List.infix_append_iff.2 (.inr (.inr ⟨start, rest, htoken, hstart, hrest⟩))

/-- A token further on, behind a stretch and the token at its end. -/
theorem behind (h : code.Interrupted cs) {front : List Char} (hfront : TokenFree front)
    (first : Code) : code.Interrupted (front ++ (first.token ++ cs)) := by
  obtain ⟨inner, between, behind, start, rest, rfl, htoken, hs, hr, hstart, hrest⟩ := h
  refine ⟨inner, front ++ (first.token ++ between), behind, start, rest, ?_, htoken, hs, hr, ?_,
    hrest⟩
  · simp only [List.append_assoc]
  · rw [hfront.strip_append]
    exact hstart.trans (List.suffix_append _ _)

end Code.Interrupted

theorem interrupted_of_left {code : Code} {cs : List Char} (h : code.token <:+: strip cs) :
    code.Interrupted cs := by
  induction cs using stretches_induction with
  | free cs hfree =>
    rw [hfree.strip_eq] at h
    exact absurd h (hfree code)
  | token front first behind hfront ih =>
    rw [hfront.strip_append] at h
    rcases List.infix_append_iff.1 h with hin | hin | ⟨start, rest, htoken, hstart, hrest⟩
    · exact absurd hin (hfront code)
    · exact (ih hin).behind hfront first
    · -- A start or a rest of nothing would leave the whole token on one side.
      by_cases hs : start = []
      · rw [hs, List.nil_append] at htoken
        rw [← htoken] at hrest
        exact (ih hrest.isInfix).behind hfront first
      by_cases hr : rest = []
      · rw [hr, List.append_nil] at htoken
        rw [← htoken] at hstart
        exact absurd hstart.isInfix (hfront code)
      refine ⟨first, front, behind, start, rest, rfl, htoken, hs, hr, ?_, hrest⟩
      rwa [hfront.strip_eq]

/-- Both ways to take tokens out leave the same text. A token is left in it exactly where one stood
around others, and only a text without such tokens is not changed by a second pass. -/
theorem strip_leaves_interrupted (cs : List Char) :
    strip cs = erase cs ∧ (∀ code : Code, code.token <:+: strip cs ↔ code.Interrupted cs) ∧
      (strip (strip cs) = strip cs ↔ ∀ code : Code, ¬ code.Interrupted cs) := by
  have hleft (code : Code) : code.token <:+: strip cs ↔ code.Interrupted cs :=
    ⟨interrupted_of_left, Code.Interrupted.token_left⟩
  refine ⟨strip_eq_erase cs, hleft, strip_eq_self_iff.trans ?_⟩
  exact forall_congr' fun code => not_congr (hleft code)

/-- A reset around a token is left, and a second pass takes it out. -/
theorem strip_leaves_reset :
    let cs := "[re[bold]set]".toList
    Code.reset.token <:+: strip cs ∧ erase cs = strip cs ∧ strip (strip cs) ≠ strip cs := by
  decide

end StateText.Markup
