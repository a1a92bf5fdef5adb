import StateText.Proofs.Ends
import StateText.Proofs.LiteralReader
import StateText.Proofs.Normal

/-!
# Reading values

The reader of written values. It does not know in which column a value stands: blanks in front of
an item or a closing bracket are skipped. `read_chars` says that it gives the normal form of what
was written and leaves what follows.
-/

namespace StateText

namespace Normal

abbrev Reader (α : Type) := List Char → Option (α × List Char)

def isSpace (c : Char) : Bool := c == ' '

def readItems {α : Type} (item : Reader α) (closing : Char) : (fuel : Nat) → Reader (List α)
  | 0, _ => none
  | fuel + 1, cs =>
    match item (cs.dropWhile isSpace) with
    | some (a, ',' :: '\n' :: rest) =>
      (readItems item closing fuel rest).map fun p => (a :: p.1, p.2)
    | some (a, '\n' :: rest) =>
      match rest.dropWhile isSpace with
      | [] => none
      | c :: rest' => if c = closing then some ([a], rest') else none
    | _ => none

def readBracketed {α : Type} (item : Reader α) (closing : Char) : Reader (List α)
  | [] => none
  | c :: cs =>
    if c = closing then some ([], cs)
    else if c = '\n' then readItems item closing cs.length cs
    else none

def readKey : Reader String
  | [] => none
  | c :: cs =>
    if c = '"' then (Literal.readBody 0 cs).map fun p => (String.ofList p.1, p.2)
    else some (String.ofList ((c :: cs).takeWhile Literal.isNameRest),
      (c :: cs).dropWhile Literal.isNameRest)

def readEntry (value : Reader Normal) : Reader (String × Normal) := fun cs =>
  match readKey cs with
  | some (name, ' ' :: '=' :: ' ' :: rest) => (value rest).map fun p => ((name, p.1), p.2)
  | _ => none

def ofWord? (word : List Char) : Option Normal :=
  if word = ['n', 'u', 'l', 'l'] then some null
  else if word = ['t', 'r', 'u', 'e'] then some (bool true)
  else if word = ['f', 'a', 'l', 's', 'e'] then some (bool false)
  else none

def readPlain (cs : List Char) : Option (Normal × List Char) :=
  match ofWord? (cs.takeWhile Char.isAlpha) with
  | some n => some (n, cs.dropWhile Char.isAlpha)
  | none => some (number (cs.takeWhile Number.isNumeral), cs.dropWhile Number.isNumeral)

def readWith : (depth : Nat) → Reader Normal
  | 0, _ => none
  | _ + 1, [] => none
  | depth + 1, c :: cs =>
    if c = '"' then (Literal.readBody 0 cs).map fun p => (string (String.ofList p.1), p.2)
    else if c = '[' then
      (readBracketed (readWith depth) ']' cs).map fun p => (sequence p.1, p.2)
    else if c = '\x7b' then
      (readBracketed (readEntry (readWith depth)) '\x7d' cs).map fun p => (mapping p.1, p.2)
    else readPlain (c :: cs)

def read : Reader Normal := fun cs => readWith cs.length cs

/-- What may follow a written value: nothing, the end of its line or a comma. -/
def Follows (t : List Char) : Prop := ∀ c ∈ t.head?, c = '\n' ∨ c = ','

theorem follows_lineFeed (t : List Char) : Follows ('\n' :: t) :=
  fun _ hc => .inl (Option.some.inj hc).symm

theorem follows_comma (t : List Char) : Follows (',' :: t) :=
  fun _ hc => .inr (Option.some.inj hc).symm

/-- The reader gives `a` for the text, which starts with no space, and leaves what follows. -/
structure Reads {α : Type} (reader : Reader α) (text : List Char) (a : α) : Prop where
  start : ∃ c cs, text = c :: cs ∧ isSpace c = false
  read : ∀ t, Follows t → reader (text ++ t) = some (a, t)

theorem isSpace_eq_false {c : Char} {p : Char → Bool} (hp : p ' ' = false) (hc : p c = true) :
    isSpace c = false := by
  by_contra hs
  have hspace : c = ' ' := by simpa [isSpace] using hs
  rw [hspace, hp] at hc
  cases hc

theorem dropWhile_spaces (n : Nat) {c : Char} (hc : isSpace c = false) (cs : List Char) :
    (Text.spaces n ++ c :: cs).dropWhile isSpace = c :: cs := by
  refine (Text.span_append ?_ ?_).2
  · intro d hd
    rw [List.eq_of_mem_replicate hd]
    rfl
  · intro d hd
    rw [← Option.some.inj hd, hc]

/-! ### Brackets -/

section Brackets

variable {α β : Type} {reader : Reader α} {write : β → List Char} {meaning : β → α} {bs : List β}
  {opening closing : Char}

theorem Reads.dropWhile {text : List Char} {a : α} (h : Reads reader text a) (inner : Nat)
    {t : List Char} (ht : Follows t) :
    reader ((Text.spaces inner ++ (text ++ t)).dropWhile isSpace) = some (a, t) := by
  obtain ⟨c, cs, hcs, hc⟩ := h.start
  have hd := dropWhile_spaces inner hc (cs ++ t)
  rw [← List.cons_append, ← hcs] at hd
  rw [hd, h.read t ht]

theorem readItems_itemLines (hne : bs ≠ [])
    (h : ∀ b ∈ bs, Reads reader (write b) (meaning b)) (hc : isSpace closing = false)
    {fuel : Nat} (hfuel : bs.length ≤ fuel) (inner indent : Nat) (t : List Char) :
    readItems reader closing fuel
        (Render.itemLines inner (bs.map write) ++ Text.spaces indent ++ closing :: t) =
      some (bs.map meaning, t) := by
  induction bs generalizing fuel with
  | nil => exact absurd rfl hne
  | cons b bs ih =>
    obtain ⟨hb, hbs⟩ := List.forall_mem_cons.1 h
    cases fuel with
    | zero => exact absurd hfuel (by simp)
    | succ fuel =>
      cases bs with
      | nil =>
        have hread := hb.dropWhile inner
          (follows_lineFeed (Text.spaces indent ++ closing :: t))
        have htext : Render.itemLines inner ([b].map write) ++ Text.spaces indent ++ closing :: t =
            Text.spaces inner ++ (write b ++ '\n' :: (Text.spaces indent ++ closing :: t)) := by
          simp [Render.itemLines]
        rw [htext, readItems, hread]
        simp [dropWhile_spaces indent hc]
      | cons b' bs =>
        let rest := Render.itemLines inner ((b' :: bs).map write) ++ Text.spaces indent ++
          closing :: t
        have hread := hb.dropWhile inner (follows_comma ('\n' :: rest))
        have htext : Render.itemLines inner ((b :: b' :: bs).map write) ++ Text.spaces indent ++
            closing :: t = Text.spaces inner ++ (write b ++ ',' :: '\n' :: rest) := by
          simp [Render.itemLines, rest]
        have hrest : readItems reader closing fuel rest = some ((b' :: bs).map meaning, t) :=
          ih (List.cons_ne_nil _ _) hbs (Nat.le_of_succ_le_succ hfuel)
        rw [htext, readItems, hread]
        change (readItems reader closing fuel rest).map _ = _
        rw [hrest]
        rfl

theorem length_le_itemLines (inner : Nat) (items : List (List Char)) :
    items.length ≤ (Render.itemLines inner items).length := by
  induction items with
  | nil => exact Nat.zero_le _
  | cons item items ih =>
    simp only [Render.itemLines_cons, List.length_append, List.length_cons]
    omega

theorem length_lt_of_mem_itemLines (inner : Nat) {item : List Char} {items : List (List Char)}
    (h : item ∈ items) : item.length < (Render.itemLines inner items).length := by
  induction items with
  | nil => exact absurd h List.not_mem_nil
  | cons first items ih =>
    simp only [Render.itemLines_cons, List.length_append, List.length_cons]
    rcases List.mem_cons.1 h with rfl | h
    · omega
    · have hlt := ih h
      omega

/-- An item is shorter than the collection it stands in. -/
theorem length_lt_of_mem_bracketed {indent : Nat} {item : List Char} {items : List (List Char)}
    (h : item ∈ items) :
    item.length < (Render.bracketed opening closing indent items).length := by
  have hlt := length_lt_of_mem_itemLines (indent + Render.level) h
  rw [Render.bracketed, if_neg (List.ne_nil_of_mem h)]
  simp only [List.length_append, List.length_cons]
  omega

theorem readBracketed_bracketed (opening closing : Char)
    (h : ∀ b ∈ bs, Reads reader (write b) (meaning b)) (hc : isSpace closing = false)
    (hn : closing ≠ '\n') (indent : Nat) (t : List Char) :
    ∃ rest, Render.bracketed opening closing indent (bs.map write) ++ t = opening :: rest ∧
      readBracketed reader closing rest = some (bs.map meaning, t) := by
  by_cases hne : bs = []
  · subst hne
    exact ⟨closing :: t, rfl, by simp [readBracketed]⟩
  · let lines := Render.itemLines (indent + Render.level) (bs.map write) ++ Text.spaces indent ++
      closing :: t
    refine ⟨'\n' :: lines, ?_, ?_⟩
    · rw [Render.bracketed, if_neg (by simpa using hne)]
      simp [lines]
    · have hfuel : bs.length ≤ lines.length := by
        have hle := length_le_itemLines (indent + Render.level) (bs.map write)
        simp only [List.length_map] at hle
        simp only [lines, List.length_append]
        omega
      rw [readBracketed, if_neg hn.symm, if_pos rfl]
      exact readItems_itemLines hne h hc hfuel _ _ _

end Brackets

/-! ### Entries -/

theorem readKey_key (name : String) (t : List Char) :
    readKey (Literal.key name ++ ' ' :: t) = some (name, ' ' :: t) := by
  unfold Literal.key Literal.keyChars
  split_ifs with hi
  · obtain ⟨c, ds, hcs, hc, hall⟩ := Literal.exists_cons_of_isIdentifier hi
    have hq : c ≠ '"' := by
      rintro rfl
      exact absurd hc (by decide)
    have hspan := Text.span_append (t := ' ' :: t) hall fun d hd => by
      rw [← Option.some.inj hd]
      decide
    rw [hcs] at hspan ⊢
    rw [List.cons_append] at hspan ⊢
    rw [readKey, if_neg hq, hspan.1, hspan.2, ← hcs, String.ofList_toList]
  · rw [Literal.stringChars, List.append_assoc, List.cons_append, readKey, if_pos rfl,
      List.singleton_append, Literal.readBody_body, Option.map_some, String.ofList_toList]

theorem start_key (name : String) :
    ∃ c cs, Literal.key name = c :: cs ∧ isSpace c = false := by
  unfold Literal.key Literal.keyChars
  split_ifs with hi
  · obtain ⟨c, ds, hcs, hc, _⟩ := Literal.exists_cons_of_isIdentifier hi
    exact ⟨c, ds, hcs, isSpace_eq_false (by decide) hc⟩
  · exact ⟨'"', _, rfl, rfl⟩

theorem reads_assignment {value : Reader Normal} {text : List Char} {n : Normal} (name : String)
    (h : ∀ t, Follows t → value (text ++ t) = some (n, t)) :
    Reads (readEntry value) (Render.assignment (name, text)) (name, n) where
  start := by
    obtain ⟨c, cs, hcs, hc⟩ := start_key name
    exact ⟨c, cs ++ ' ' :: '=' :: ' ' :: text, by rw [Render.assignment, hcs, List.cons_append], hc⟩
  read t ht := by
    rw [Render.assignment, List.append_assoc, readEntry, List.cons_append, readKey_key]
    simp [h t ht]

/-! ### Words and numbers -/

theorem readPlain_word (word : List Char) {t : List Char} {n : Normal} (hn : ofWord? word = some n)
    (hword : ∀ c ∈ word, c.isAlpha = true) (ht : Follows t) :
    readPlain (word ++ t) = some (n, t) := by
  have hspan : (word ++ t).takeWhile Char.isAlpha = word ∧
      (word ++ t).dropWhile Char.isAlpha = t := by
    refine Text.span_append hword fun c hc => ?_
    rcases ht c hc with rfl | rfl <;> decide
  rw [readPlain, hspan.1, hspan.2, hn]

theorem span_numeral {cs t : List Char} (h : Number.Numeral cs) (ht : Follows t) :
    (cs ++ t).takeWhile Number.isNumeral = cs ∧ (cs ++ t).dropWhile Number.isNumeral = t := by
  refine Text.span_append h.forall_isNumeral fun c hc => ?_
  rcases ht c hc with rfl | rfl <;> decide

/-- No word starts with a numeral. -/
theorem takeWhile_ne_of_isNumeral {c d : Char} (hc : Number.isNumeral c = true)
    (hd : Number.isNumeral d = false) (cs ds : List Char) :
    (c :: cs).takeWhile Char.isAlpha ≠ d :: ds := by
  intro h
  rw [List.takeWhile_cons] at h
  split_ifs at h
  have heq := (List.cons.inj h).1
  rw [heq, hd] at hc
  cases hc

theorem readPlain_number {cs t : List Char} (h : Number.Numeral cs) (ht : Follows t) :
    readPlain (cs ++ t) = some (number cs, t) := by
  have hspan := span_numeral h ht
  obtain ⟨c, ds, rfl⟩ := List.exists_cons_of_ne_nil h.ne_nil
  have hne {d : Char} (hd : Number.isNumeral d = false) (word : List Char) :
      (c :: ds ++ t).takeWhile Char.isAlpha ≠ d :: word :=
    takeWhile_ne_of_isNumeral (h.forall_isNumeral c List.mem_cons_self) hd _ _
  have hword : ofWord? ((c :: ds ++ t).takeWhile Char.isAlpha) = none := by
    rw [ofWord?, if_neg (hne (by decide) _), if_neg (hne (by decide) _),
      if_neg (hne (by decide) _)]
  rw [readPlain, hword, hspan.1, hspan.2]

theorem readWith_number {cs t : List Char} (h : Number.Numeral cs) (ht : Follows t)
    (depth : Nat) : readWith (depth + 1) (cs ++ t) = some (number cs, t) := by
  have hread := readPlain_number h ht
  obtain ⟨c, ds, rfl⟩ := List.exists_cons_of_ne_nil h.ne_nil
  have hc := h.forall_isNumeral c List.mem_cons_self
  have hne {d : Char} (hd : Number.isNumeral d = false) : c ≠ d := by
    rintro rfl
    rw [hd] at hc
    cases hc
  rw [List.cons_append] at hread ⊢
  rw [readWith, if_neg (hne (by decide)), if_neg (hne (by decide)), if_neg (hne (by decide)), hread]

/-! ### Values -/

end Normal

namespace Value

open StateText.Normal

theorem start_chars (v : Value) (indent : Nat) :
    ∃ c cs, v.chars indent = c :: cs ∧ isSpace c = false := by
  have hbracketed (opening closing : Char) (items : List (List Char))
      (ho : isSpace opening = false) :
      ∃ c cs, Render.bracketed opening closing indent items = c :: cs ∧ isSpace c = false := by
    unfold Render.bracketed
    split_ifs
    · exact ⟨opening, _, rfl, ho⟩
    · exact ⟨opening, _, rfl, ho⟩
  cases v with
  | null => exact ⟨'n', _, rfl, rfl⟩
  | string s => exact ⟨'"', _, rfl, rfl⟩
  | bool b => cases b <;> exact ⟨_, _, rfl, rfl⟩
  | number n =>
    have hn := Number.numeral_literal n
    obtain ⟨c, cs, hcs⟩ := List.exists_cons_of_ne_nil hn.ne_nil
    have hc := hn.forall_isNumeral c (hcs ▸ List.mem_cons_self)
    exact ⟨c, cs, hcs, isSpace_eq_false (by decide) hc⟩
  | list items => exact hbracketed _ _ _ rfl
  | set items => exact hbracketed _ _ _ rfl
  | tuple items => exact hbracketed _ _ _ rfl
  | map entries => exact hbracketed _ _ _ rfl
  | object fields => exact hbracketed _ _ _ rfl

/-- A reader of items reads a sequence of them. -/
theorem readWith_items {items : List Value} {indent depth : Nat} {t : List Char}
    (h : ∀ v ∈ items, Reads (readWith depth) (v.chars (indent + Render.level)) v.normal) :
    readWith (depth + 1)
        (Render.bracketed '[' ']' indent (itemChars items (indent + Render.level)) ++ t) =
      some (.sequence (normalItems items), t) := by
  rw [itemChars_eq_map, normalItems_eq_map]
  obtain ⟨rest, htext, hread⟩ :=
    readBracketed_bracketed '[' ']' h rfl (by decide) indent t
  rw [htext, readWith, if_neg (by decide), if_pos rfl, hread]
  rfl

theorem readWith_entries {entries : List (String × Value)} {indent depth : Nat} {t : List Char}
    (h : ∀ e ∈ entries, Reads (readWith depth) (e.2.chars (indent + Render.level)) e.2.normal) :
    readWith (depth + 1) (Render.braced indent
        (entries.map fun e => (e.1, e.2.chars (indent + Render.level))) ++ t) =
      some (.mapping (Entries.sorted (entries.map fun e => (e.1, e.2.normal))), t) := by
  rw [braced_eq, normal_entries]
  have hentries : ∀ e ∈ Entries.sorted entries, Reads (readEntry (readWith depth))
      (Render.assignment (e.1, e.2.chars (indent + Render.level))) (e.1, e.2.normal) := by
    intro e he
    exact reads_assignment e.1 (h e (Entries.mem_sortBy.1 he)).read
  obtain ⟨rest, htext, hread⟩ :=
    readBracketed_bracketed '\x7b' '\x7d' hentries rfl (by decide) indent t
  rw [htext, readWith, if_neg (by decide), if_neg (by decide), if_pos rfl, hread]
  rfl

theorem length_lt_of_mem_items {v : Value} {items : List Value} (hv : v ∈ items) (indent : Nat) :
    (v.chars (indent + Render.level)).length <
      (Render.bracketed '[' ']' indent (itemChars items (indent + Render.level))).length := by
  apply length_lt_of_mem_bracketed
  rw [itemChars_eq_map]
  exact List.mem_map_of_mem hv

theorem length_lt_of_mem_entries {e : String × Value} {entries : List (String × Value)}
    (he : e ∈ entries) (indent : Nat) : (e.2.chars (indent + Render.level)).length <
      (Render.braced indent
        (entries.map fun e => (e.1, e.2.chars (indent + Render.level)))).length := by
  let line := Render.assignment (e.1, e.2.chars (indent + Render.level))
  have hline : (e.2.chars (indent + Render.level)).length ≤ line.length := by
    simp only [line, Render.assignment, List.length_append, List.length_cons]
    omega
  have hmem : line ∈ (Entries.sorted entries).map fun e =>
      Render.assignment (e.1, e.2.chars (indent + Render.level)) :=
    List.mem_map_of_mem (Entries.mem_sortBy.2 he)
  rw [braced_eq]
  exact hline.trans_lt (length_lt_of_mem_bracketed hmem)

/-- A reader whose depth is the length of a written value reads it. -/
theorem reads_chars (v : Value) {indent depth : Nat} (hd : (v.chars indent).length ≤ depth) :
    Reads (readWith depth) (v.chars indent) v.normal := by
  refine ⟨v.start_chars indent, fun t ht => ?_⟩
  induction depth generalizing v indent t with
  | zero =>
    obtain ⟨c, cs, hcs, _⟩ := v.start_chars indent
    rw [hcs] at hd
    exact absurd hd (by simp)
  | succ depth ih =>
    have hitems : ∀ items : List Value,
        (Render.bracketed '[' ']' indent (itemChars items (indent + Render.level))).length ≤
          depth + 1 → ∀ v ∈ items,
            Reads (readWith depth) (v.chars (indent + Render.level)) v.normal := by
      intro items hle v hv
      refine ⟨v.start_chars _, ih v ?_⟩
      exact Nat.le_of_lt_succ ((length_lt_of_mem_items hv indent).trans_le hle)
    have hentries : ∀ entries : List (String × Value), (Render.braced indent
        (entries.map fun e => (e.1, e.2.chars (indent + Render.level)))).length ≤ depth + 1 →
          ∀ e ∈ entries, Reads (readWith depth) (e.2.chars (indent + Render.level)) e.2.normal := by
      intro entries hle e he
      refine ⟨e.2.start_chars _, ih e.2 ?_⟩
      exact Nat.le_of_lt_succ ((length_lt_of_mem_entries he indent).trans_le hle)
    cases v with
    | null => exact readPlain_word "null".toList rfl (List.all_eq_true.1 rfl) ht
    | string s =>
      rw [chars, Literal.string, Literal.stringChars, List.append_assoc, List.cons_append, readWith,
        if_pos rfl, List.singleton_append, Literal.readBody_body, Option.map_some,
        String.ofList_toList, normal]
    | number n => exact readWith_number (Number.numeral_literal n) ht depth
    | bool b =>
      cases b with
      | false => exact readPlain_word "false".toList rfl (List.all_eq_true.1 rfl) ht
      | true => exact readPlain_word "true".toList rfl (List.all_eq_true.1 rfl) ht
    | list items => exact readWith_items (hitems items hd)
    | set items => exact readWith_items (hitems items hd)
    | tuple items => exact readWith_items (hitems items hd)
    | map entries =>
      rw [chars, entryChars_eq_map] at hd ⊢
      rw [normal, normalEntries_eq_map]
      exact readWith_entries (hentries entries hd)
    | object fields =>
      rw [chars, fieldChars_eq_map] at hd ⊢
      rw [normal, normalFields_eq_map]
      exact readWith_entries (hentries (written fields) hd)

/-- A written value is read back up to its normal form, in any column, and what follows is left. -/
theorem read_chars (v : Value) (indent : Nat) {t : List Char} (ht : Follows t) :
    read (v.chars indent ++ t) = some (v.normal, t) := by
  refine (reads_chars v ?_).read t ht
  rw [List.length_append]
  exact Nat.le_add_right _ _

end Value

end StateText
