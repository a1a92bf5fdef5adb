import Mathlib.Tactic.SplitIfs
import StateText.Json.Token
import StateText.Value.Literal

/-!
# Reading literals

The reader of a string literal undoes its escapes and halves a doubled introducer in front of a
brace. `readString_stringChars` reads back what was written, whatever follows the closing quote.
-/

namespace StateText.Literal

def escapedLetter? : Char → Option Char
  | '"' => some '"'
  | '\\' => some '\\'
  | 'n' => some '\n'
  | 'r' => some '\r'
  | 't' => some '\t'
  | _ => none

/-- The character that four hexadecimal digits stand for; half of a surrogate pair is none. -/
def ofHexCode? (cs : List Char) : Option Char :=
  match cs.mapM Json.Reader.hexValue? with
  | some [a, b, c, d] =>
    let code := ((a * 16 + b) * 16 + c) * 16 + d
    if code.isValidChar then some (Char.ofNat code) else none
  | _ => none

def readEscape : List Char → Option (Char × Nat)
  | [] => none
  | c :: cs =>
    if c = 'u' then (ofHexCode? (cs.take 4)).map fun d => (d, 5)
    else (escapedLetter? c).map fun d => (d, 1)

def readLead (c : Char) (cs : List Char) : Option (Char × Nat) :=
  if c = '\\' then readEscape cs
  else if isIntroducer c ∧ cs.take 2 = [c, '\x7b'] then some (c, 1)
  else some (c, 0)

/-- The body of a string from behind its opening quote. The first `skip` characters belong to one
that has been read. -/
def readBody : (skip : Nat) → List Char → Option (List Char × List Char)
  | _, [] => none
  | skip + 1, _ :: cs => readBody skip cs
  | 0, c :: cs =>
    if c = '"' then some ([], cs)
    else
      match readLead c cs with
      | none => none
      | some (d, n) => (readBody n cs).map fun p => (d :: p.1, p.2)

def readString : List Char → Option (List Char × List Char)
  | [] => none
  | c :: cs => if c = '"' then readBody 0 cs else none

theorem readBody_append (xs cs : List Char) : readBody xs.length (xs ++ cs) = readBody 0 cs := by
  induction xs with
  | nil => rfl
  | cons x xs ih => rw [List.length_cons, List.cons_append, readBody, ih]

theorem ofHexCode?_hexCode :
    ∀ n < 160, (hexCode n).length = 4 ∧ ofHexCode? (hexCode n) = some (Char.ofNat n) := by
  decide +kernel

theorem plain_of_mem_hexCode {n : Nat} (hn : n < 160) : ∀ d ∈ hexCode n,
    (isControl d = false ∧ isIntroducer d = false) ∧ d ≠ '"' ∧ d ≠ '\\' := by
  have hall : ∀ n < 160, (hexCode n).all (fun d => decide
      ((isControl d = false ∧ isIntroducer d = false) ∧ d ≠ '"' ∧ d ≠ '\\')) = true := by
    decide +kernel
  exact fun d hd => of_decide_eq_true (List.all_eq_true.1 (hall n hn) d hd)

/-- What stands for a character behind a backslash: the reader finds the character there, nothing in
it is a control character or starts a template, and only the first of it may be a quote or a
backslash. -/
structure IsEscape (c : Char) (xs : List Char) : Prop where
  read : ∀ rest, readEscape (xs ++ rest) = some (c, xs.length)
  visible : ∀ d ∈ xs, isControl d = false ∧ isIntroducer d = false
  closed : ∃ d ds, xs = d :: ds ∧ ∀ e ∈ ds, e ≠ '"' ∧ e ≠ '\\'

theorem isEscape_hexCode {c : Char} (h : isControl c = true) :
    IsEscape c ('u' :: hexCode c.toNat) := by
  have hlt : c.toNat < 160 := by
    simp only [isControl, decide_eq_true_eq] at h
    omega
  obtain ⟨hlength, hcode⟩ := ofHexCode?_hexCode c.toNat hlt
  have hplain := plain_of_mem_hexCode hlt
  refine ⟨fun rest => ?_, ?_, 'u', hexCode c.toNat, rfl, fun e he => (hplain e he).2⟩
  · have htake : (hexCode c.toNat ++ rest).take 4 = hexCode c.toNat := by
      rw [← hlength, List.take_left']
      rfl
    rw [List.cons_append, readEscape, if_pos rfl, htake, hcode, List.length_cons, hlength,
      Char.ofNat_toNat]
    rfl
  · exact List.forall_mem_cons.2 ⟨by decide, fun d hd => (hplain d hd).1⟩

theorem isEscape_letter {c d : Char} (h : ∀ rest, readEscape (d :: rest) = some (c, 1))
    (hd : isControl d = false ∧ isIntroducer d = false) : IsEscape c [d] where
  read := h
  visible := List.forall_mem_singleton.2 hd
  closed := ⟨d, [], rfl, by simp⟩

/-- A character is written as itself or behind a backslash. -/
theorem escapeChar_cases (c : Char) :
    (escapeChar c = [c] ∧ c ≠ '"' ∧ c ≠ '\\' ∧ isControl c = false) ∨
      ∃ xs, escapeChar c = '\\' :: xs ∧ IsEscape c xs := by
  unfold escapeChar
  split
  · exact .inr ⟨['"'], rfl, isEscape_letter (fun _ => rfl) (by decide)⟩
  · exact .inr ⟨['\\'], rfl, isEscape_letter (fun _ => rfl) (by decide)⟩
  · exact .inr ⟨['n'], rfl, isEscape_letter (fun _ => rfl) (by decide)⟩
  · exact .inr ⟨['r'], rfl, isEscape_letter (fun _ => rfl) (by decide)⟩
  · exact .inr ⟨['t'], rfl, isEscape_letter (fun _ => rfl) (by decide)⟩
  next hq hb _ _ _ =>
    split_ifs with hc
    · exact .inr ⟨'u' :: hexCode c.toNat, rfl, isEscape_hexCode hc⟩
    · exact .inl ⟨rfl, hq, hb, Bool.eq_false_iff.2 hc⟩

theorem not_isIntroducer_brace : isIntroducer '\x7b' = false := by decide

/-- A body starts with a brace only where the string does. -/
theorem head?_of_head?_body {cs t : List Char} (h : (body cs ++ '"' :: t).head? = some '\x7b') :
    cs.head? = some '\x7b' := by
  cases cs with
  | nil => exact absurd h (by simp)
  | cons c cs =>
    rw [body_cons] at h
    split_ifs at h with hi
    · cases Option.some.inj h
      exact absurd hi.1 (by simp [not_isIntroducer_brace])
    · rcases escapeChar_cases c with ⟨hc, _⟩ | ⟨xs, hc, _⟩
      · rw [hc] at h
        exact h
      · rw [hc] at h
        exact absurd (Option.some.inj h) (by decide)

/-- An introducer that stands for itself is followed by no second one with a brace. -/
theorem take_body_ne {c : Char} {cs : List Char} (hi : isIntroducer c = true) (t : List Char) :
    (body cs ++ '"' :: t).take 2 ≠ [c, '\x7b'] := by
  intro h
  cases cs with
  | nil =>
    have hc : '"' = c := by simpa using congrArg List.head? h
    rw [← hc] at hi
    exact absurd hi (by decide)
  | cons d ds =>
    rw [body_cons] at h
    split_ifs at h with hd
    · have hb : d = '\x7b' := (List.cons.inj (List.cons.inj h).2).1
      rw [hb] at hd
      exact absurd hd.1 (by decide)
    · rcases escapeChar_cases d with ⟨hesc, _⟩ | ⟨xs, hesc, _⟩
      · rw [hesc] at h
        have hdc : d = c := by simpa using congrArg List.head? h
        have hhead : (body ds ++ '"' :: t).head? = some '\x7b' := by
          cases hb : body ds ++ '"' :: t with
          | nil => exact absurd hb (by simp)
          | cons e es =>
            rw [List.append_assoc, hb] at h
            exact congrArg some (List.cons.inj (List.cons.inj h).2).1
        exact hd ⟨hdc ▸ hi, head?_of_head?_body hhead⟩
      · rw [hesc] at h
        have hc : '\\' = c := by simpa using congrArg List.head? h
        rw [← hc] at hi
        exact absurd hi (by decide)

theorem readBody_body (cs t : List Char) : readBody 0 (body cs ++ '"' :: t) = some (cs, t) := by
  induction cs with
  | nil => rfl
  | cons c cs ih =>
    rw [body_cons]
    split_ifs with hi
    · have hne : c ≠ '"' ∧ c ≠ '\\' := by
        constructor <;> rintro rfl <;> exact absurd hi.1 (by decide)
      have hbrace : (c :: body cs ++ '"' :: t).take 2 = [c, '\x7b'] := by
        cases cs with
        | nil => exact absurd hi.2 (by simp)
        | cons d ds =>
          cases Option.some.inj hi.2
          rw [body_cons, if_neg (by simp [not_isIntroducer_brace])]
          rfl
      rw [List.cons_append, readBody, if_neg hne.1, readLead, if_neg hne.2, if_pos ⟨hi.1, hbrace⟩]
      simp [readBody, ih]
    · rcases escapeChar_cases c with ⟨hc, hq, hb, _⟩ | ⟨xs, hc, hxs⟩
      · have hlead : readLead c (body cs ++ '"' :: t) = some (c, 0) := by
          rw [readLead, if_neg hb, if_neg fun h => take_body_ne h.1 t h.2]
        rw [hc, List.append_assoc, List.singleton_append, readBody, if_neg hq, hlead]
        simp [ih]
      · rw [hc, List.append_assoc, List.cons_append, readBody, if_neg (by decide), readLead,
          if_pos rfl, hxs.read]
        simp [readBody_append, ih]

theorem readString_stringChars (cs t : List Char) :
    readString (stringChars cs ++ t) = some (cs, t) := by
  rw [stringChars, List.append_assoc, List.cons_append, readString, if_pos rfl,
    List.singleton_append, readBody_body]

/-! ### Names -/

theorem isNameRest_of_isNameStart {c : Char} (h : isNameStart c = true) :
    isNameRest c = true := by
  simp only [isNameStart, Bool.or_eq_true] at h
  rcases h with h | h
  · simp [isNameRest, Char.isAlphanum, h]
  · simp [isNameRest, h]

/-- An identifier starts with a name character and has nothing but these. -/
theorem exists_cons_of_isIdentifier {cs : List Char} (h : isIdentifier cs = true) :
    ∃ c ds, cs = c :: ds ∧ isNameStart c = true ∧ ∀ d ∈ cs, isNameRest d = true := by
  cases cs with
  | nil => cases h
  | cons c ds =>
    simp only [isIdentifier, Bool.and_eq_true, List.all_eq_true] at h
    refine ⟨c, ds, rfl, h.1, ?_⟩
    exact List.forall_mem_cons.2 ⟨isNameRest_of_isNameStart h.1, h.2⟩

end StateText.Literal

namespace StateText

def IsIdentifier (name : String) : Prop := Literal.isIdentifier name.toList = true

/-- No character of an identifier is one that names cannot have. -/
theorem IsIdentifier.ne_of_mem {name : String} (h : IsIdentifier name) {c d : Char}
    (hc : c ∈ name.toList) (hd : Literal.isNameRest d = false) : c ≠ d := by
  obtain ⟨_, _, _, _, hall⟩ := Literal.exists_cons_of_isIdentifier h
  rintro rfl
  exact absurd (hall _ hc) (by rw [hd]; decide)

end StateText
