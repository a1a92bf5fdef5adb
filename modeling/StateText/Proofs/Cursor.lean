import Mathlib.Tactic.SplitIfs
import StateText.Value.Render

/-!
# Nested brackets

A text with brackets, read character by character: which brackets are open, whether the reader is in
a string literal, and where its line starts. `Laid` says of every character on the way that it
stands where the open brackets put it, `Nested` what this means for the whole text.
-/

namespace StateText

open Render

inductive Cursor.Place where
  | plain
  | literal
  | escape

/-- What is known in front of a character: the closing brackets that are due, the next one first,
and the spaces that the line starts with, of which more may follow while it is fresh. -/
structure Cursor where
  due : List Char
  place : Cursor.Place
  width : Nat
  fresh : Bool

namespace Cursor

def start (n : Nat) : Cursor := ⟨[], .plain, n, false⟩

def closing? : Char → Option Char
  | '[' => some ']'
  | '\x7b' => some '\x7d'
  | _ => none

def isClosing (c : Char) : Bool := c == ']' || c == '\x7d'

theorem closing?_cases {opening closing : Char} (h : closing? opening = some closing) :
    (opening = '[' ∧ closing = ']') ∨ (opening = '\x7b' ∧ closing = '\x7d') := by
  unfold closing? at h
  split at h
  · exact .inl ⟨rfl, (Option.some.inj h).symm⟩
  · exact .inr ⟨rfl, (Option.some.inj h).symm⟩
  · cases h

def past (k : Cursor) (c : Char) : Cursor :=
  if c = '\n' then { k with width := 0, fresh := true }
  else if c = ' ' ∧ k.fresh then { k with width := k.width + 1 }
  else { k with fresh := false }

def close? (c : Char) : List Char → Option (List Char)
  | [] => none
  | d :: due => if d = c then some due else none

def next (k : Cursor) (c : Char) : Option Cursor :=
  match k.place with
  | .literal =>
    if c = '"' then some { k.past c with place := .plain }
    else if c = '\\' then some { k.past c with place := .escape }
    else some (k.past c)
  | .escape => some { k.past c with place := .literal }
  | .plain =>
    if c = '"' then some { k.past c with place := .literal }
    else if isClosing c then (close? c k.due).map fun due => { k.past c with due := due }
    else
      match closing? c with
      | some d => some { k.past c with due := d :: k.due }
      | none => some (k.past c)

def walk (k : Cursor) : List Char → Option Cursor
  | [] => some k
  | c :: cs => (k.next c).bind fun l => l.walk cs

/-- How deep a line is that starts with the character: as many brackets as are open, without the one
that the character closes. -/
def depth (k : Cursor) (c : Char) : Nat := k.due.length - if isClosing c then 1 else 0

def isMark (c : Char) : Bool := c == '"' || isClosing c || (closing? c).isSome

theorem mem_of_isMark {c : Char} (h : isMark c = true) :
    c ∈ ['"', '[', ']', '\x7b', '\x7d'] := by
  simp only [isMark, isClosing, Bool.or_eq_true, beq_iff_eq] at h
  rcases h with (rfl | rfl | rfl) | hopening
  · decide
  · decide
  · decide
  · obtain ⟨d, hd⟩ := Option.isSome_iff_exists.1 hopening
    rcases closing?_cases hd with ⟨rfl, _⟩ | ⟨rfl, _⟩ <;> decide

theorem next_eq_past {k : Cursor} {c : Char} (hplain : k.place = .plain)
    (hmark : isMark c = false) : k.next c = some (k.past c) := by
  simp only [isMark, Bool.or_eq_false_iff, beq_eq_false_iff_ne, Option.isSome_eq_false_iff,
    Option.isNone_iff_eq_none] at hmark
  obtain ⟨⟨hquote, hclosing⟩, hopening⟩ := hmark
  simp [next, hplain, hquote, hclosing, hopening]

theorem walk_append (k : Cursor) (cs ds : List Char) :
    k.walk (cs ++ ds) = (k.walk cs).bind fun l => l.walk ds := by
  induction cs generalizing k with
  | nil => rfl
  | cons c cs ih =>
    rw [List.cons_append, walk, walk, Option.bind_assoc]
    congr 1
    exact funext ih

/-! ### What is open around a text -/

def within (k : Cursor) (outer : List Char) : Cursor := { k with due := k.due ++ outer }

theorem past_within (k : Cursor) (outer : List Char) (c : Char) :
    (k.within outer).past c = (k.past c).within outer := by
  unfold past within
  split_ifs <;> rfl

theorem close?_append {c : Char} {due rest : List Char} (h : close? c due = some rest)
    (outer : List Char) : close? c (due ++ outer) = some (rest ++ outer) := by
  cases due with
  | nil => cases h
  | cons d due =>
    rw [close?] at h
    split_ifs at h with hd
    cases h
    rw [List.cons_append, close?, if_pos hd]

theorem next_within {k l : Cursor} {c : Char} (outer : List Char) (h : k.next c = some l) :
    (k.within outer).next c = some (l.within outer) := by
  have hplace : (k.within outer).place = k.place := rfl
  unfold next at h ⊢
  rw [hplace, past_within]
  cases hp : k.place with
  | literal =>
    simp only [hp] at h ⊢
    split_ifs at h ⊢ <;> cases h <;> rfl
  | escape =>
    simp only [hp] at h ⊢
    cases h
    rfl
  | plain =>
    simp only [hp] at h ⊢
    split_ifs at h ⊢ with hq hc
    · cases h
      rfl
    · obtain ⟨due, hdue, rfl⟩ := Option.map_eq_some_iff.1 h
      have hclose : close? c (k.within outer).due = some (due ++ outer) := close?_append hdue outer
      rw [hclose]
      rfl
    · cases hclosing : closing? c with
      | none =>
        rw [hclosing] at h
        cases h
        rfl
      | some d =>
        rw [hclosing] at h
        cases h
        rfl

theorem walk_within {k l : Cursor} {cs : List Char} (outer : List Char) (h : k.walk cs = some l) :
    (k.within outer).walk cs = some (l.within outer) := by
  induction cs generalizing k with
  | nil =>
    cases h
    rfl
  | cons c cs ih =>
    obtain ⟨m, hm, hrest⟩ := Option.bind_eq_some_iff.1 h
    rw [walk, next_within outer hm, Option.bind_some, ih hrest]

theorem next_opening {k : Cursor} {opening closing : Char} (hplain : k.place = .plain)
    (h : closing? opening = some closing) :
    k.next opening = some ((start k.width).within (closing :: k.due)) := by
  obtain ⟨due, place, width, fresh⟩ := k
  cases hplain
  rcases closing?_cases h with ⟨rfl, rfl⟩ | ⟨rfl, rfl⟩ <;> rfl

theorem depth_opening {opening closing : Char} (h : closing? opening = some closing) (k : Cursor) :
    k.depth opening = k.due.length := by
  rcases closing?_cases h with ⟨rfl, rfl⟩ | ⟨rfl, rfl⟩ <;> rfl

theorem isClosing_of_closing? {opening closing : Char} (h : closing? opening = some closing) :
    isClosing closing = true := by
  rcases closing?_cases h with ⟨rfl, rfl⟩ | ⟨rfl, rfl⟩ <;> rfl

/-! ### Aligned texts -/

/-- No literal goes over a line. What comes first on a line stands where the brackets in front of
the line put it, and so does the line that a bracket stands on. -/
structure Aligned (n : Nat) (k : Cursor) (c : Char) : Prop where
  feed : c = '\n' → k.place = .plain
  visible : k.fresh = true → c ≠ ' ' → Text.isBlank c = false
  width : k.place = .plain → (k.fresh = true ∧ c ≠ ' ') ∨ (closing? c).isSome ∨ isClosing c →
    k.width = n + level * k.depth c

/-- The text takes the cursor `k` to `m` and is aligned all the way. -/
inductive Laid (n : Nat) : Cursor → List Char → Cursor → Prop
  | nil {k : Cursor} : Laid n k [] k
  | cons {k l m : Cursor} {c : Char} {cs : List Char} (aligned : Aligned n k c)
      (step : k.next c = some l) (rest : Laid n l cs m) : Laid n k (c :: cs) m

namespace Laid

variable {n : Nat} {k l m : Cursor} {c : Char} {cs ds : List Char}

theorem single (aligned : Aligned n k c) (step : k.next c = some l) : Laid n k [c] l :=
  .cons aligned step .nil

theorem append (h : Laid n k cs l) (hrest : Laid n l ds m) : Laid n k (cs ++ ds) m := by
  induction h with
  | nil => exact hrest
  | cons aligned step _ ih => exact .cons aligned step (ih hrest)

theorem walk_eq (h : Laid n k cs m) : k.walk cs = some m := by
  induction h with
  | nil => rfl
  | cons _ step _ ih => rw [walk, step, Option.bind_some, ih]

/-- The way through a text, stopped somewhere. -/
theorem split {front behind : List Char} (h : Laid n k (front ++ behind) m) :
    ∃ l, k.walk front = some l ∧ Laid n l behind m := by
  induction front generalizing k with
  | nil => exact ⟨k, rfl, h⟩
  | cons c front ih =>
    cases h with
    | cons aligned step rest =>
      obtain ⟨l, hl, hbehind⟩ := ih rest
      exact ⟨l, by rw [walk, step, Option.bind_some, hl], hbehind⟩

theorem aligned (h : Laid n k (c :: cs) m) : Aligned n k c := by
  cases h with
  | cons aligned _ _ => exact aligned

theorem exists_next (h : Laid n k (c :: cs) m) : ∃ l, k.next c = some l ∧ Laid n l cs m := by
  cases h with
  | cons _ step rest => exact ⟨_, step, rest⟩

/-- A line has spaces in front of its first visible character, as many as its depth asks for. -/
theorem exists_first (h : Laid n k cs m) (hplain : k.place = .plain) (hfresh : k.fresh = true)
    (hm : m.fresh = false) : ∃ blanks c rest, cs = Text.spaces blanks ++ c :: rest ∧
      Text.isBlank c = false ∧ k.width + blanks = n + level * k.depth c := by
  induction h with
  | nil =>
    rw [hfresh] at hm
    cases hm
  | @cons k l m c cs aligned step rest ih =>
    by_cases hc : c = ' '
    · subst hc
      have hpast : k.past ' ' = { k with width := k.width + 1 } := by
        rw [past, if_neg (by decide), if_pos ⟨rfl, hfresh⟩]
      rw [next_eq_past hplain (by decide), hpast] at step
      cases step
      obtain ⟨blanks, c, behind, rfl, hc, hwidth⟩ := ih hplain hfresh hm
      refine ⟨blanks + 1, c, behind, by simp [Text.spaces, List.replicate_succ], hc, ?_⟩
      rw [Nat.add_comm blanks, ← Nat.add_assoc]
      exact hwidth
    · exact ⟨0, c, cs, rfl, aligned.visible hfresh hc, aligned.width hplain (.inl ⟨hfresh, hc⟩)⟩

end Laid

end Cursor

open Cursor

/-- A text that starts in the column `n`. Brackets in string literals aside, its brackets match, a
line is indented by the brackets that are open in front of it, and a closing bracket stands on a
line that starts in the same column as the line of its opening bracket, with nothing open between
the two. -/
structure Nested (n : Nat) (cs : List Char) : Prop where
  balanced : (start n).walk cs = some (start n)
  lines : ∀ front behind, cs = front ++ '\n' :: behind → ∃ k c rest,
    (start n).walk front = some k ∧ k.place = .plain ∧
      behind = Text.spaces (n + level * k.depth c) ++ c :: rest ∧ Text.isBlank c = false
  pairs : ∀ front opening inside closing behind k m,
    cs = front ++ opening :: (inside ++ closing :: behind) → (start n).walk front = some k →
      k.place = .plain → closing? opening = some closing →
        (start k.width).walk inside = some m → m.place = .plain → m.due = [] →
          ∃ l, (start n).walk (front ++ opening :: inside) = some l ∧ l.width = k.width

theorem Cursor.Laid.nested {n : Nat} {cs : List Char} (h : Laid n (start n) cs (start n)) :
    Nested n cs where
  balanced := h.walk_eq
  lines := by
    rintro front behind rfl
    obtain ⟨k, hk, hrest⟩ := h.split
    have hplain := hrest.aligned.feed rfl
    -- the next line starts with the same brackets open
    obtain ⟨l, hl, hbehind⟩ := hrest.exists_next
    rw [next_eq_past hplain rfl] at hl
    cases hl
    obtain ⟨blanks, c, rest, rfl, hc, hwidth⟩ := hbehind.exists_first hplain rfl rfl
    refine ⟨k, c, rest, hk, hplain, ?_, hc⟩
    have hblanks : blanks = n + level * k.depth c := (Nat.zero_add blanks).symm.trans hwidth
    rw [hblanks]
  pairs := by
    rintro front opening inside closing behind k m rfl hk hplain hpair hm hmplain hdue
    obtain ⟨k', hk', hrest⟩ := h.split
    cases hk.symm.trans hk'
    have hopening := hrest.aligned.width hplain (.inr (.inl (by rw [hpair]; rfl)))
    obtain ⟨l, hl, hinside⟩ := hrest.exists_next
    cases (next_opening hplain hpair).symm.trans hl
    obtain ⟨l, hwalk, hbehind⟩ := hinside.split
    -- what stands between the brackets is walked as it is by itself
    cases (walk_within (closing :: k.due) hm).symm.trans hwalk
    have hclosing := hbehind.aligned.width hmplain (.inr (.inr (isClosing_of_closing? hpair)))
    refine ⟨m.within (closing :: k.due), ?_, ?_⟩
    · rw [walk_append, hk, Option.bind_some, walk, hl, Option.bind_some, hwalk]
    · have hdepth : (m.within (closing :: k.due)).depth closing = k.due.length := by
        rw [depth, isClosing_of_closing? hpair, within, hdue]
        rfl
      rw [hclosing, hdepth, hopening, depth_opening hpair]

end StateText
