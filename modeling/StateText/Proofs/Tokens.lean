import Mathlib.Data.List.Basic
import StateText.Markup

/-!
# Markup line by line

A token is opened by a bracket and has no line feed and no blank. So markup is taken out of each
line alone, at the two sides of a token alone, and text in which no token stands stays as it is.
-/

namespace StateText.Markup

namespace Code

theorem mem_all (code : Code) : code ∈ all := by cases code <;> decide

theorem length_token_pos (code : Code) : 0 < code.token.length := Nat.succ_pos _

/-- No token goes on over a line feed or a blank. -/
theorem not_mem_token {c : Char} (hc : c = '\n' ∨ c = ' ') (code : Code) : c ∉ code.token := by
  rcases hc with rfl | rfl <;> cases code <;> decide

end Code

theorem prefix_of_prefix_append_cons {α : Type} {t as bs : List α} {x : α} (hx : x ∉ t)
    (h : t <+: as ++ x :: bs) : t <+: as := by
  by_contra hnot
  have hlength : as.length < t.length := by
    by_contra hle
    exact hnot (List.prefix_of_prefix_length_le h (List.prefix_append _ _) (Nat.not_lt.1 hle))
  have hfront : as ++ [x] <+: as ++ x :: bs := ⟨bs, by simp⟩
  have hsnoc : as ++ [x] <+: t :=
    List.prefix_of_prefix_length_le hfront h (by simpa using Nat.succ_le_of_lt hlength)
  exact hx (hsnoc.subset (by simp))

/-! ### Tokens at the front -/

theorem code?_eq_none_iff {cs : List Char} :
    code? cs = none ↔ ∀ code : Code, ¬ code.token <+: cs := by
  rw [code?, List.find?_eq_none]
  simp only [List.isPrefixOf_iff_prefix]
  exact ⟨fun h code => h code code.mem_all, fun h code _ => h code⟩

theorem token_prefix_of_code? {cs : List Char} {code : Code} (h : code? cs = some code) :
    code.token <+: cs :=
  List.isPrefixOf_iff_prefix.1 <| List.find?_some
    (p := fun code : Code => code.token.isPrefixOf cs) h

theorem code?_congr {cs ds : List Char}
    (h : ∀ code : Code, code.token <+: cs ↔ code.token <+: ds) : code? cs = code? ds := by
  have hfront (code : Code) : code.token.isPrefixOf cs = code.token.isPrefixOf ds := by
    rw [Bool.eq_iff_iff, List.isPrefixOf_iff_prefix, List.isPrefixOf_iff_prefix]
    exact h code
  simp only [code?, hfront]

theorem code?_append_cons {c : Char} (hc : c = '\n' ∨ c = ' ') (cs ds : List Char) :
    code? (cs ++ c :: ds) = code? cs :=
  code?_congr fun code => ⟨prefix_of_prefix_append_cons (code.not_mem_token hc),
    fun h => h.trans (List.prefix_append _ _)⟩

/-! ### Tokens in front of a bracket -/

theorem Code.exists_token_eq (code : Code) : ∃ rest, code.token = '[' :: rest ∧ '[' ∉ rest := by
  refine ⟨code.word.toList ++ [']'], rfl, ?_⟩
  cases code <;> decide

theorem code?_cons_of_ne {c : Char} (hc : c ≠ '[') (cs : List Char) : code? (c :: cs) = none := by
  refine code?_eq_none_iff.2 fun code hfront => ?_
  obtain ⟨rest, htoken, _⟩ := code.exists_token_eq
  rw [htoken, List.cons_prefix_cons] at hfront
  exact hc hfront.1.symm

/-- A bracket is where a token starts, so none goes on over one. -/
theorem code?_append_bracket {cs : List Char} (hne : cs ≠ []) (ds : List Char) :
    code? (cs ++ '[' :: ds) = code? cs := by
  obtain ⟨c, cs, rfl⟩ := List.exists_cons_of_ne_nil hne
  refine code?_congr fun code => ⟨fun h => ?_, fun h => h.trans (List.prefix_append _ _)⟩
  obtain ⟨rest, htoken, hrest⟩ := code.exists_token_eq
  rw [htoken, List.cons_append, List.cons_prefix_cons] at h
  rw [htoken, List.cons_prefix_cons]
  exact ⟨h.1, prefix_of_prefix_append_cons hrest h.2⟩

/-! ### Segments -/

theorem segmentsFrom_eq (skip : Nat) (cs : List Char) :
    segmentsFrom skip cs = segmentsFrom 0 (cs.drop skip) := by
  induction cs generalizing skip with
  | nil => cases skip <;> simp [segmentsFrom]
  | cons c cs ih =>
    cases skip with
    | zero => rfl
    | succ skip => rw [segmentsFrom, ih, List.drop_succ_cons]

theorem segments_of_code? {cs : List Char} {code : Code} (h : code? cs = some code) :
    segments cs = ([], (code, (segments (cs.drop code.token.length)).1) ::
      (segments (cs.drop code.token.length)).2) := by
  cases cs with
  | nil => cases h
  | cons c cs =>
    obtain ⟨k, hk⟩ : ∃ k, code.token.length = k + 1 := ⟨_, rfl⟩
    have hrest : segmentsFrom (code.token.length - 1) cs =
        segments ((c :: cs).drop code.token.length) := by
      rw [segmentsFrom_eq, hk, List.drop_succ_cons, Nat.add_sub_cancel, segments]
    rw [← hrest, segments, segmentsFrom, h]

theorem segments_cons {c : Char} {cs : List Char} (h : code? (c :: cs) = none) :
    segments (c :: cs) = (c :: (segments cs).1, (segments cs).2) := by
  rw [segments, segmentsFrom, h]
  rfl

/-- Induction along a text as it is cut: a token at the front is taken off as a whole, any other
character alone. -/
theorem segments_induction {P : List Char → Prop} (nil : P [])
    (token : ∀ cs code, code? cs = some code → P (cs.drop code.token.length) → P cs)
    (char : ∀ c cs, code? (c :: cs) = none → P cs → P (c :: cs)) (cs : List Char) : P cs := by
  induction hn : cs.length using Nat.strongRecOn generalizing cs with
  | ind n ih =>
    subst hn
    cases hcode : code? cs with
    | some code =>
      have hlength : code.token.length ≤ cs.length := (token_prefix_of_code? hcode).length_le
      have hpos := code.length_token_pos
      refine token cs code hcode (ih _ ?_ _ rfl)
      rw [List.length_drop]
      omega
    | none =>
      cases cs with
      | nil => exact nil
      | cons c cs => exact char c cs hcode (ih _ (Nat.lt_succ_self _) cs rfl)

/-! ### Text without its tokens -/

@[simp] theorem strip_nil : strip [] = [] := rfl

theorem strip_of_code? {cs : List Char} {code : Code} (h : code? cs = some code) :
    strip cs = strip (cs.drop code.token.length) := by
  rw [strip, segments_of_code? h]
  rfl

theorem strip_cons {c : Char} {cs : List Char} (h : code? (c :: cs) = none) :
    strip (c :: cs) = c :: strip cs := by
  rw [strip, segments_cons h]
  rfl

/-- Lines are stripped one by one, and so is what stands at the two sides of a blank. -/
theorem strip_append_cons {c : Char} (hc : c = '\n' ∨ c = ' ') (cs ds : List Char) :
    strip (cs ++ c :: ds) = strip cs ++ c :: strip ds := by
  induction cs using segments_induction with
  | nil => exact strip_cons (code?_append_cons hc [] ds)
  | token cs code hcode ih =>
    have hlength : code.token.length ≤ cs.length := (token_prefix_of_code? hcode).length_le
    have hboth : code? (cs ++ c :: ds) = some code := by rw [code?_append_cons hc, hcode]
    rw [strip_of_code? hboth, strip_of_code? hcode, List.drop_append_of_le_length hlength, ih]
  | char d cs hcode ih =>
    have hboth : code? (d :: (cs ++ c :: ds)) = none := by
      rw [← List.cons_append, code?_append_cons hc, hcode]
    rw [List.cons_append, strip_cons hboth, strip_cons hcode, ih, List.cons_append]

/-! ### Both sides of a token -/

theorem code?_token_append (code : Code) (cs : List Char) :
    code? (code.token ++ cs) = some code := by
  cases code <;> rfl

/-- Wherever a token stands it is read: the one in front of it ends there. -/
theorem segments_append_token (code : Code) (cs ds : List Char) :
    segments (cs ++ (code.token ++ ds)) =
      ((segments cs).1, (segments cs).2 ++ (code, (segments ds).1) :: (segments ds).2) := by
  induction cs using segments_induction with
  | nil =>
    rw [List.nil_append, segments_of_code? (code?_token_append code ds), List.drop_left]
    rfl
  | token cs first hfirst ih =>
    have hne : cs ≠ [] := by
      rintro rfl
      cases hfirst
    have hlength : first.token.length ≤ cs.length := (token_prefix_of_code? hfirst).length_le
    have hboth : code? (cs ++ (code.token ++ ds)) = some first :=
      (code?_append_bracket hne _).trans hfirst
    rw [segments_of_code? hboth, segments_of_code? hfirst,
      List.drop_append_of_le_length hlength, ih, List.cons_append]
  | char c cs hcode ih =>
    have hboth : code? (c :: (cs ++ (code.token ++ ds))) = none :=
      (code?_append_bracket (List.cons_ne_nil c cs) _).trans hcode
    rw [List.cons_append, segments_cons hboth, segments_cons hcode, ih]

theorem strip_append_token (code : Code) (cs ds : List Char) :
    strip (cs ++ (code.token ++ ds)) = strip cs ++ strip ds := by
  rw [strip, segments_append_token, strip, strip, List.flatMap_append, List.flatMap_cons,
    List.append_assoc]

def TokenFree (cs : List Char) : Prop := ∀ code : Code, ¬ code.token <:+: cs

theorem TokenFree.strip_eq {cs : List Char} (h : TokenFree cs) : strip cs = cs := by
  induction cs with
  | nil => rfl
  | cons c cs ih =>
    have hcode : code? (c :: cs) = none :=
      code?_eq_none_iff.2 fun code hfront => h code hfront.isInfix
    have hrest : TokenFree cs :=
      fun code hstands => h code (hstands.trans (List.suffix_cons c cs).isInfix)
    rw [strip_cons hcode, ih hrest]

theorem tokenFree_of_not_mem {cs : List Char} (h : '[' ∉ cs) : TokenFree cs :=
  fun _ hstands => h (hstands.subset List.mem_cons_self)

end StateText.Markup
