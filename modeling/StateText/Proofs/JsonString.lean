import Mathlib.Tactic.SplitIfs
import StateText.Json.Printer
import StateText.Json.Token

/-!
# Strings of a document

A string is read back from its compact form, so the compact form tells strings apart.
-/

namespace StateText.Json

open Reader

theorem hexCode_hexDigits : ∀ n < 32,
    Fault.byteCount ['0', '0', hexDigit (n / 16), hexDigit (n % 16)] = 4 ∧
      ['0', '0', hexDigit (n / 16), hexDigit (n % 16)].mapM hexValue? =
        some [0, 0, n / 16, n % 16] := by
  decide

theorem codeEscape_hexDigits {n : Nat} (hn : n < 32) (rest : List Char) :
    codeEscape ('0' :: '0' :: hexDigit (n / 16) :: hexDigit (n % 16) :: rest) =
      .ok (Char.ofNat n, 4) := by
  obtain ⟨hcount, hvalues⟩ := hexCode_hexDigits n hn
  have hcode : hexCode ('0' :: '0' :: hexDigit (n / 16) :: hexDigit (n % 16) :: rest) = .ok n := by
    unfold hexCode
    rw [List.take_succ_cons, List.take_succ_cons, List.take_succ_cons, List.take_succ_cons,
      List.take_zero, hcount, hvalues]
    have hsum : ((0 * 16 + 0) * 16 + n / 16) * 16 + n % 16 = n := by omega
    simp only [hsum]
    rfl
  have htrailing : isTrailing n = false := by
    simp only [isTrailing, decide_eq_false_iff_not]
    omega
  have hleading : isLeading n = false := by
    simp only [isLeading, decide_eq_false_iff_not]
    omega
  simp [codeEscape, hcode, htrailing, hleading]

theorem stringBody_append (xs cs : List Char) :
    stringBody xs.length (xs ++ cs) = stringBody 0 cs := by
  induction xs with
  | nil => rfl
  | cons x xs ih => rw [List.length_cons, List.cons_append, stringBody, ih]

/-- A character stands for itself or behind a backslash, from where its escape is read. -/
theorem escapeChar_cases (c : Char) :
    (escapeChar c = [c] ∧ c ≠ '"' ∧ c ≠ '\\' ∧ ¬ c.toNat < 0x20) ∨
      ∃ xs, escapeChar c = '\\' :: xs ∧ (∀ d ∈ xs, d ≠ '\n' ∧ d ≠ ':') ∧
        ∀ rest, escape (xs ++ rest) = .ok (c, xs.length) := by
  unfold escapeChar
  split
  · exact .inr ⟨['"'], rfl, by simp, fun _ => rfl⟩
  · exact .inr ⟨['\\'], rfl, by simp, fun _ => rfl⟩
  · exact .inr ⟨['b'], rfl, by simp, fun _ => rfl⟩
  · exact .inr ⟨['t'], rfl, by simp, fun _ => rfl⟩
  · exact .inr ⟨['n'], rfl, by simp, fun _ => rfl⟩
  · exact .inr ⟨['f'], rfl, by simp, fun _ => rfl⟩
  · exact .inr ⟨['r'], rfl, by simp, fun _ => rfl⟩
  next hq hb _ _ _ _ _ =>
    split_ifs with hc
    · refine .inr ⟨['u', '0', '0', hexDigit (c.toNat / 16), hexDigit (c.toNat % 16)], rfl, ?_,
        fun rest => ?_⟩
      · have hdigit : ∀ n < 16, hexDigit n ≠ '\n' ∧ hexDigit n ≠ ':' := by decide
        have hhigh := hdigit (c.toNat / 16) (by omega)
        have hlow := hdigit (c.toNat % 16) (by omega)
        simp [hhigh, hlow]
      · rw [List.cons_append, escape, if_pos rfl]
        change (codeEscape ('0' :: '0' :: hexDigit (c.toNat / 16) :: hexDigit (c.toNat % 16) ::
          rest)).map _ = _
        rw [codeEscape_hexDigits hc, Char.ofNat_toNat]
        rfl
    · exact .inl ⟨rfl, hq, hb, hc⟩

theorem stringBody_escape (cs t : List Char) :
    stringBody 0 (cs.flatMap escapeChar ++ '"' :: t) = .ok (cs, t) := by
  induction cs with
  | nil => rfl
  | cons c cs ih =>
    rw [List.flatMap_cons]
    rcases escapeChar_cases c with ⟨hc, hq, hb, hlow⟩ | ⟨xs, hc, _, hread⟩
    · rw [hc, List.append_assoc, List.singleton_append, stringBody, if_neg hq, if_neg hb,
        if_neg hlow, ih]
      rfl
    · rw [hc, List.append_assoc, List.cons_append, stringBody, if_neg (by decide), if_pos rfl,
        hread]
      dsimp only
      rw [stringBody_append, ih]
      rfl

theorem string_escape (s : String) (t : List Char) :
    Reader.string (s.toList.flatMap escapeChar ++ '"' :: t) = .ok (s, t) := by
  rw [Reader.string, stringBody_escape]
  simp [Except.map]

theorem renderString_injective {s s' : String} (h : renderString s = renderString s') : s = s' := by
  have hchars : stringChars s.toList = stringChars s'.toList := String.ofList_injective h
  have hbody : s.toList.flatMap escapeChar ++ ['"'] = s'.toList.flatMap escapeChar ++ ['"'] :=
    (List.cons.inj hchars).2
  have hread := string_escape s []
  rw [hbody, string_escape] at hread
  exact (Prod.mk.inj (Except.ok.inj hread)).1.symm

/-- A string stays on its line. -/
theorem ne_lineFeed_of_mem_stringChars {cs : List Char} {c : Char} (h : c ∈ stringChars cs) :
    c ≠ '\n' := by
  rw [stringChars, List.mem_append, List.mem_cons, List.mem_flatMap] at h
  rcases h with (rfl | ⟨d, _, hc⟩) | h
  · decide
  · rcases escapeChar_cases d with ⟨hd, _, _, hlow⟩ | ⟨xs, hd, hxs, _⟩
    · rw [hd, List.mem_singleton] at hc
      rintro rfl
      exact hlow (by rw [← hc]; decide)
    · rw [hd] at hc
      rcases List.mem_cons.1 hc with rfl | hc
      · decide
      · exact (hxs c hc).1
  · rw [List.mem_singleton.1 h]
    decide

theorem colon_mem_escapeChar_iff {c : Char} : ':' ∈ escapeChar c ↔ c = ':' := by
  rcases escapeChar_cases c with ⟨hc, _⟩ | ⟨xs, hc, hxs, _⟩
  · rw [hc, List.mem_singleton, eq_comm]
  · refine iff_of_false ?_ ?_
    · rw [hc, List.mem_cons, not_or]
      exact ⟨by decide, fun hmem => (hxs _ hmem).2 rfl⟩
    · rintro rfl
      cases hc

/-- No escape has a colon in it, and a colon needs none. -/
theorem colon_mem_stringChars_iff {cs : List Char} : ':' ∈ stringChars cs ↔ ':' ∈ cs := by
  simp [stringChars, colon_mem_escapeChar_iff]

end StateText.Json
