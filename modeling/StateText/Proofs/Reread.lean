import StateText.Json.Printer
import StateText.Proofs.Distinct
import StateText.Proofs.JsonString
import StateText.Proofs.ReadNumber

/-!
# Documents read back

The compact text of a document is read as the document itself, up to its floating-point numbers:
`parse_render`. The reader bounds how deep a document nests, so this is about documents that were
read before, and about the depth that they were read at.
-/

namespace StateText

namespace Json

open Reader

/-! ### Depth -/

inductive Nested : ℕ → Json → Prop
  | null (depth : ℕ) : Nested depth null
  | bool (depth : ℕ) (b : Bool) : Nested depth (bool b)
  | number (depth : ℕ) (n : Number) : Nested depth (number n)
  | string (depth : ℕ) (s : String) : Nested depth (string s)
  | array {depth : ℕ} {items : List Json} (each : ∀ j ∈ items, Nested depth j) :
      Nested (depth + 1) (array items)
  | object {depth : ℕ} {fields : List (String × Json)} (each : ∀ e ∈ fields, Nested depth e.2) :
      Nested (depth + 1) (object fields)

theorem nested_of_composed {nested : Option (Reader Json)} {depth : ℕ} {j : Json}
    (h : Composed nested j) (hn : ∀ reader, nested = some reader →
      ∃ d, depth = d + 1 ∧ ∀ cs j rest, reader cs = .ok (j, rest) → Nested d j) :
    Nested depth j := by
  cases h with
  | null => exact .null depth
  | bool b => exact .bool depth b
  | number n => exact .number depth n
  | string s => exact .string depth s
  | array hreader each =>
    obtain ⟨d, rfl, hparts⟩ := hn _ hreader
    refine .array fun j hj => ?_
    obtain ⟨cs, rest, hread⟩ := each j hj
    exact hparts cs j rest hread
  | ofPairs hreader each =>
    obtain ⟨d, rfl, hparts⟩ := hn _ hreader
    refine .object fun e he => ?_
    obtain ⟨cs, rest, hread⟩ := each e (Entries.mem_of_mem_ofPairs (Entries.mem_sortBy.1 he))
    exact hparts cs e.2 rest hread

theorem nested_of_value {depth : ℕ} {cs rest : List Char} {j : Json}
    (h : value depth cs = .ok (j, rest)) : Nested depth j := by
  induction depth generalizing cs rest j with
  | zero => exact nested_of_composed (composed_of_valueWith h) fun _ hn => nomatch hn
  | succ depth ih =>
    refine nested_of_composed (composed_of_valueWith h) fun reader hn => ?_
    cases hn
    exact ⟨depth, rfl, fun _ _ _ => ih⟩

theorem Nested.mono {depth depth' : ℕ} {j : Json} (h : Nested depth j) (hd : depth ≤ depth') :
    Nested depth' j := by
  induction h generalizing depth' with
  | null => exact .null _
  | bool _ b => exact .bool _ b
  | number _ n => exact .number _ n
  | string _ s => exact .string _ s
  | array _ ih =>
    obtain ⟨depth', rfl⟩ := Nat.exists_eq_succ_of_ne_zero (Nat.ne_zero_of_lt hd)
    exact .array fun j hj => ih j hj (Nat.le_of_succ_le_succ hd)
  | object _ ih =>
    obtain ⟨depth', rfl⟩ := Nat.exists_eq_succ_of_ne_zero (Nat.ne_zero_of_lt hd)
    exact .object fun e he => ih e he (Nat.le_of_succ_le_succ hd)

/-- A document that the reader gives, as far as its brackets and the order of its members go. -/
structure Readable (j : Json) : Prop where
  nested : Nested depthLimit j
  ordered : j.Ordered

theorem readable_null : Readable null := ⟨.null _, .null⟩

theorem readable_of_value {depth : ℕ} (hd : depth ≤ depthLimit) {cs rest : List Char} {j : Json}
    (h : value depth cs = .ok (j, rest)) : j.Readable :=
  ⟨(nested_of_value h).mono hd, ordered_of_value h⟩

theorem readable_of_parse {text : String} {j : Json} (h : parse text = .ok j) : j.Readable := by
  obtain ⟨_, hv⟩ := value_of_parse h
  exact readable_of_value le_rfl hv

/-! ### Lists and objects -/

def Starts (cs : List Char) : Prop := ∃ c cs', cs = c :: cs' ∧ isSpace c = false ∧ c ≠ ']'

theorem Starts.append {cs : List Char} (h : Starts cs) (t : List Char) : Starts (cs ++ t) := by
  obtain ⟨c, cs, rfl, hc⟩ := h
  exact ⟨c, cs ++ t, rfl, hc⟩

theorem skipSpace_cons {c : Char} (hc : isSpace c = false) (cs : List Char) :
    skipSpace (c :: cs) = c :: cs := by
  rw [skipSpace, List.dropWhile_cons_of_neg (by rw [hc]; decide)]

theorem commaSeparated_cons (item : List Char) (items : List (List Char)) :
    commaSeparated (item :: items) = item ++ items.flatMap fun item => ',' :: item := by
  induction items generalizing item with
  | nil => rw [commaSeparated, List.flatMap_nil, List.append_nil]
  | cons next items ih => rw [commaSeparated, ih, List.flatMap_cons, List.cons_append]

theorem ended_flatMap {α : Type} (text : α → List Char) {c : Char}
    (hc : c = ']' ∨ c = '\x7d') (as : List α) (t : List Char) :
    Ended ((as.flatMap fun a => ',' :: text a) ++ c :: t) := by
  cases as with
  | nil => exact ended_cons (.inr hc) t
  | cons a as => exact ended_cons (.inl rfl) _

section Collections

variable {α β : Type} {text : α → List Char} {result : α → β} {reader : Reader β}

theorem elements_comma {cs : List Char} (h : Starts cs) (fuel : ℕ) :
    elements reader (fuel + 1) false (',' :: cs) = elements reader (fuel + 1) true cs := by
  obtain ⟨c, cs, rfl, hspace, hc⟩ := h
  rw [elements, elements, skipSpace_cons (by decide), skipSpace_cons hspace]
  dsimp only
  rw [if_neg (by decide), if_neg Bool.false_ne_true, if_pos rfl, skipSpace_cons hspace]
  dsimp only
  rw [if_neg hc, if_neg hc, if_pos rfl]

theorem elements_of_element {cs rest : List Char} (h : Starts cs) {b : β}
    (hread : reader cs = .ok (b, rest)) (fuel : ℕ) :
    elements reader (fuel + 1) true cs =
      (elements reader fuel false rest).map fun p => (b :: p.1, p.2) := by
  obtain ⟨c, cs, rfl, hspace, hc⟩ := h
  rw [elements, skipSpace_cons hspace]
  dsimp only
  rw [if_neg hc, if_pos rfl, hread]

theorem elements_flatMap {as : List α} (hstart : ∀ a ∈ as, Starts (text a))
    (hread : ∀ a ∈ as, ∀ t, Ended t → reader (text a ++ t) = .ok (result a, t)) (t : List Char)
    {fuel : ℕ} (hfuel : as.length < fuel) :
    elements reader fuel false ((as.flatMap fun a => ',' :: text a) ++ ']' :: t) =
      .ok (as.map result, ']' :: t) := by
  induction as generalizing fuel with
  | nil =>
    obtain ⟨fuel, rfl⟩ := Nat.exists_eq_succ_of_ne_zero (Nat.ne_of_gt hfuel)
    rfl
  | cons a as ih =>
    obtain ⟨fuel, rfl⟩ := Nat.exists_eq_succ_of_ne_zero (Nat.ne_zero_of_lt hfuel)
    obtain ⟨ha, has⟩ := List.forall_mem_cons.1 hstart
    obtain ⟨hra, hras⟩ := List.forall_mem_cons.1 hread
    have hnext := hra _ (ended_flatMap text (.inl rfl) as t)
    rw [List.flatMap_cons, List.append_assoc, List.cons_append, elements_comma (ha.append _),
      elements_of_element (ha.append _) hnext, ih has hras (Nat.lt_of_succ_lt_succ hfuel)]
    rfl

theorem elements_commaSeparated {as : List α} (hstart : ∀ a ∈ as, Starts (text a))
    (hread : ∀ a ∈ as, ∀ t, Ended t → reader (text a ++ t) = .ok (result a, t)) (t : List Char)
    {fuel : ℕ} (hfuel : as.length < fuel) :
    elements reader fuel true (commaSeparated (as.map text) ++ ']' :: t) =
      .ok (as.map result, ']' :: t) := by
  obtain ⟨fuel, rfl⟩ := Nat.exists_eq_succ_of_ne_zero (Nat.ne_zero_of_lt hfuel)
  cases as with
  | nil => rfl
  | cons a as =>
    have ha : Starts (text a) := hstart a List.mem_cons_self
    rw [← elements_flatMap hstart hread t hfuel, List.map_cons, commaSeparated_cons,
      List.flatMap_map, List.flatMap_cons, List.append_assoc, List.append_assoc, List.cons_append,
      elements_comma (ha.append _)]

def memberText (text : α → List Char) (e : String × α) : List Char :=
  stringChars e.1.toList ++ ':' :: text e.2

theorem memberText_append (text : α → List Char) (e : String × α) (t : List Char) :
    memberText text e ++ t =
      '"' :: (e.1.toList.flatMap escapeChar ++ '"' :: ':' :: (text e.2 ++ t)) := by
  simp [memberText, stringChars]

theorem pair_append {a : α} (hread : ∀ t, Ended t → reader (text a ++ t) = .ok (result a, t))
    (pairs : List (String × β)) (name : String) {t : List Char} (ht : Ended t) :
    pair reader pairs name (':' :: (text a ++ t)) = .ok ((name, result a) :: pairs, t) := by
  have hcolon : colon (':' :: (text a ++ t)) = .ok ((), text a ++ t) := rfl
  rw [pair, hcolon]
  dsimp only
  rw [hread t ht]
  rfl

theorem members_comma (pairs : List (String × β)) (e : String × α) (t : List Char) (fuel : ℕ) :
    members (pair reader) (fuel + 1) false pairs (',' :: (memberText text e ++ t)) =
      members (pair reader) (fuel + 1) true pairs (memberText text e ++ t) := by
  rw [memberText_append]
  rfl

theorem members_of_member {e : String × α}
    (hread : ∀ t, Ended t → reader (text e.2 ++ t) = .ok (result e.2, t))
    (pairs : List (String × β)) {t : List Char} (ht : Ended t) (fuel : ℕ) :
    members (pair reader) (fuel + 1) true pairs (memberText text e ++ t) =
      members (pair reader) fuel false ((e.1, result e.2) :: pairs) t := by
  have hname := string_escape e.1 (':' :: (text e.2 ++ t))
  have hpair := pair_append hread pairs e.1 ht
  rw [memberText_append, members, skipSpace_cons (by decide)]
  dsimp only
  rw [if_neg (by decide), if_pos rfl, if_pos rfl, hname]
  dsimp only
  rw [hpair]

theorem members_flatMap {es : List (String × α)}
    (hread : ∀ e ∈ es, ∀ t, Ended t → reader (text e.2 ++ t) = .ok (result e.2, t))
    (pairs : List (String × β)) (t : List Char) {fuel : ℕ} (hfuel : es.length < fuel) :
    members (pair reader) fuel false pairs
      ((es.flatMap fun e => ',' :: memberText text e) ++ '\x7d' :: t) =
        .ok ((es.map fun e => (e.1, result e.2)).reverse ++ pairs, '\x7d' :: t) := by
  induction es generalizing fuel pairs with
  | nil =>
    obtain ⟨fuel, rfl⟩ := Nat.exists_eq_succ_of_ne_zero (Nat.ne_of_gt hfuel)
    rfl
  | cons e es ih =>
    obtain ⟨fuel, rfl⟩ := Nat.exists_eq_succ_of_ne_zero (Nat.ne_zero_of_lt hfuel)
    obtain ⟨he, hes⟩ := List.forall_mem_cons.1 hread
    have hend := ended_flatMap (memberText text) (.inr rfl) es t
    rw [List.flatMap_cons, List.append_assoc, List.cons_append, members_comma,
      members_of_member he pairs hend, ih hes _ (Nat.lt_of_succ_lt_succ hfuel), List.map_cons,
      List.reverse_cons, List.append_assoc, List.singleton_append]

theorem members_commaSeparated {es : List (String × α)}
    (hread : ∀ e ∈ es, ∀ t, Ended t → reader (text e.2 ++ t) = .ok (result e.2, t))
    (t : List Char) {fuel : ℕ} (hfuel : es.length < fuel) :
    members (pair reader) fuel true [] (commaSeparated (es.map (memberText text)) ++ '\x7d' :: t) =
      .ok ((es.map fun e => (e.1, result e.2)).reverse, '\x7d' :: t) := by
  obtain ⟨fuel, rfl⟩ := Nat.exists_eq_succ_of_ne_zero (Nat.ne_zero_of_lt hfuel)
  cases es with
  | nil => rfl
  | cons e es =>
    rw [← List.append_nil (List.reverse _), ← members_flatMap hread [] t hfuel, List.map_cons,
      commaSeparated_cons, List.flatMap_map, List.flatMap_cons, List.append_assoc,
      List.append_assoc, List.cons_append, members_comma]

end Collections

theorem length_le_length_commaSeparated (items : List (List Char)) :
    items.length ≤ (commaSeparated items).length + 1 := by
  fun_induction commaSeparated items with
  | case1 => simp
  | case2 item => simp
  | case3 item next items ih =>
    simp only [List.length_cons, List.length_append] at ih ⊢
    omega

/-! ### Documents -/

mutual

def floats : Json → List Binary64
  | null => []
  | bool _ => []
  | number (.float x) => [x]
  | number _ => []
  | string _ => []
  | array items => itemFloats items
  | object fields => fieldFloats fields

def itemFloats : List Json → List Binary64
  | [] => []
  | item :: items => floats item ++ itemFloats items

def fieldFloats : List (String × Json) → List Binary64
  | [] => []
  | (_, value) :: fields => floats value ++ fieldFloats fields

end

mutual

def reread : Json → Json
  | null => null
  | bool b => bool b
  | number n => number n.reread
  | string s => string s
  | array items => array (rereadItems items)
  | object fields => object (rereadFields fields)

def rereadItems : List Json → List Json
  | [] => []
  | item :: items => reread item :: rereadItems items

def rereadFields : List (String × Json) → List (String × Json)
  | [] => []
  | (name, value) :: fields => (name, reread value) :: rereadFields fields

end

theorem rereadItems_eq_map (items : List Json) : rereadItems items = items.map reread := by
  induction items with
  | nil => rfl
  | cons item items ih => rw [rereadItems, ih, List.map_cons]

theorem rereadFields_eq_map (fields : List (String × Json)) :
    rereadFields fields = fields.map fun e => (e.1, reread e.2) := by
  induction fields with
  | nil => rfl
  | cons field fields ih => rw [rereadFields, ih, List.map_cons]

theorem itemChars_eq_map (items : List Json) : itemChars items = items.map chars := by
  induction items with
  | nil => rfl
  | cons item items ih => rw [itemChars, ih, List.map_cons]

theorem fieldChars_eq_map (fields : List (String × Json)) :
    fieldChars fields = fields.map (memberText chars) := by
  induction fields with
  | nil => rfl
  | cons field fields ih => rw [fieldChars, ih, List.map_cons, memberText]

mutual

/-- A document is read back as itself if each of its floating-point numbers is. -/
theorem reread_eq_self_iff : ∀ j : Json, j.reread = j ↔ ∀ x ∈ j.floats, x.reread = x
  | null => by simp [reread, floats]
  | bool _ => by simp [reread, floats]
  | number (.natural _ _) => by simp [reread, floats, Number.reread]
  | number (.negative _ _) => by simp [reread, floats, Number.reread]
  | number (.float _) => by simp [reread, floats, Number.reread]
  | string _ => by simp [reread, floats]
  | array items => by rw [reread, floats, array.injEq, rereadItems_eq_self_iff]
  | object fields => by rw [reread, floats, object.injEq, rereadFields_eq_self_iff]

theorem rereadItems_eq_self_iff : ∀ items : List Json,
    rereadItems items = items ↔ ∀ x ∈ itemFloats items, x.reread = x
  | [] => by simp [rereadItems, itemFloats]
  | item :: items => by
    rw [rereadItems, itemFloats, List.cons.injEq, reread_eq_self_iff, rereadItems_eq_self_iff,
      List.forall_mem_append]

theorem rereadFields_eq_self_iff : ∀ fields : List (String × Json),
    rereadFields fields = fields ↔ ∀ x ∈ fieldFloats fields, x.reread = x
  | [] => by simp [rereadFields, fieldFloats]
  | (name, value) :: fields => by
    rw [rereadFields, fieldFloats, List.cons.injEq, Prod.mk.injEq, reread_eq_self_iff,
      rereadFields_eq_self_iff, List.forall_mem_append]
    simp

end

/-! ### Reading a written document -/

theorem ne_of_isDigit {c d : Char} (hc : c.isDigit = true) (hd : d.isDigit = false) : c ≠ d := by
  rintro rfl
  rw [hc] at hd
  cases hd

theorem isSpace_of_isDigit {c : Char} (hc : c.isDigit = true) : isSpace c = false := by
  simp [isSpace, ne_of_isDigit hc]

theorem starts_text (n : Number) : Starts n.text := by
  obtain ⟨c, cs, hc, ⟨htext, _⟩ | ⟨htext, _⟩⟩ := n.reads_reread.cases
  · exact ⟨'-', c :: cs, htext, by decide, by decide⟩
  · exact ⟨c, cs, htext, isSpace_of_isDigit hc, ne_of_isDigit hc (by decide)⟩

theorem starts_chars (j : Json) : Starts j.chars := by
  have hstart {c : Char} (cs : List Char) (h : isSpace c = false ∧ c ≠ ']') : Starts (c :: cs) :=
    ⟨c, cs, rfl, h⟩
  cases j with
  | null => exact hstart _ (by decide)
  | bool b => cases b <;> exact hstart _ (by decide)
  | number n => exact starts_text n
  | string s => exact hstart _ (by decide)
  | array items => exact hstart _ (by decide)
  | object fields => exact hstart _ (by decide)

section Values

variable {nested : Option (Reader Json)} {t : List Char}

theorem valueWith_minus (cs : List Char) :
    valueWith nested ('-' :: cs) = (Reader.number true cs).map fun p => (number p.1, p.2) := rfl

theorem valueWith_digit {c : Char} (hc : c.isDigit = true) (cs : List Char) :
    valueWith nested (c :: cs) =
      (Reader.number false (c :: cs)).map fun p => (number p.1, p.2) := by
  have hne {d : Char} (hd : d.isDigit = false) : c ≠ d := ne_of_isDigit hc hd
  rw [valueWith, skipSpace_cons (isSpace_of_isDigit hc)]
  dsimp only
  rw [if_neg (hne rfl), if_neg (hne rfl), if_neg (hne rfl), if_neg (hne rfl), if_pos hc]

theorem valueWith_quote (cs : List Char) :
    valueWith nested ('"' :: cs) = (Reader.string cs).map fun p => (string p.1, p.2) := rfl

theorem valueWith_bracket (reader : Reader Json) (cs : List Char) :
    valueWith (some reader) ('[' :: cs) =
      (elements reader (cs.length + 1) true cs).map fun p => (array p.1, p.2.drop 1) := rfl

theorem valueWith_brace (reader : Reader Json) (cs : List Char) :
    valueWith (some reader) ('\x7b' :: cs) =
      (members (pair reader) (cs.length + 1) true [] cs).map fun p =>
        (ofPairs p.1.reverse, p.2.drop 1) := rfl

theorem valueWith_number {n m : Number} (h : Reads n m) (ht : Ended t) :
    valueWith nested (n.text ++ t) = .ok (.number m, t) := by
  obtain ⟨c, cs, hc, ⟨htext, hread⟩ | ⟨htext, hread⟩⟩ := h.cases
  · rw [htext, List.cons_append, valueWith_minus, hread t ht]
    rfl
  · rw [htext, List.cons_append, valueWith_digit hc, ← List.cons_append, hread t ht]
    rfl

theorem valueWith_string (s : String) (t : List Char) :
    valueWith nested (stringChars s.toList ++ t) = .ok (.string s, t) := by
  have htext : stringChars s.toList ++ t = '"' :: (s.toList.flatMap escapeChar ++ '"' :: t) := by
    simp [stringChars]
  have hread := string_escape s t
  rw [htext, valueWith_quote, hread]
  rfl

theorem valueWith_array {reader : Reader Json} {items items' : List Json}
    (h : ∀ fuel > items.length, elements reader fuel true
      (commaSeparated (items.map chars) ++ ']' :: t) = .ok (items', ']' :: t)) :
    valueWith (some reader) ((array items).chars ++ t) = .ok (array items', t) := by
  have htext : (array items).chars ++ t =
      '[' :: (commaSeparated (items.map chars) ++ ']' :: t) := by
    rw [chars, itemChars_eq_map, List.cons_append, List.cons_append, List.append_assoc,
      List.singleton_append]
  have hlength := length_le_length_commaSeparated (items.map chars)
  rw [List.length_map] at hlength
  rw [htext, valueWith_bracket, h]
  · rfl
  · rw [List.length_append, List.length_cons]
    omega

theorem valueWith_object {reader : Reader Json} {fields : List (String × Json)}
    {pairs : List (String × Json)}
    (h : ∀ fuel > fields.length, members (pair reader) fuel true []
      (commaSeparated (fields.map (memberText chars)) ++ '\x7d' :: t) =
        .ok (pairs.reverse, '\x7d' :: t)) :
    valueWith (some reader) ((object fields).chars ++ t) = .ok (ofPairs pairs, t) := by
  have htext : (object fields).chars ++ t =
      '\x7b' :: (commaSeparated (fields.map (memberText chars)) ++ '\x7d' :: t) := by
    rw [chars, fieldChars_eq_map, List.cons_append, List.cons_append, List.append_assoc,
      List.singleton_append]
  have hlength := length_le_length_commaSeparated (fields.map (memberText chars))
  rw [List.length_map] at hlength
  rw [htext, valueWith_brace, h]
  · dsimp only [Except.map]
    rw [List.reverse_reverse]
    rfl
  · rw [List.length_append, List.length_cons]
    omega

end Values

/-- What opens no bracket is read alike at every depth. -/
theorem value_of_forall_valueWith {depth : ℕ} {cs rest : List Char} {j : Json}
    (h : ∀ nested, valueWith nested cs = .ok (j, rest)) : value depth cs = .ok (j, rest) := by
  cases depth with
  | zero => exact h none
  | succ depth => exact h (some (value depth))

theorem ofPairs_of_ascending {fields : List (String × Json)}
    (h : fields.Pairwise fun a b => a.1 < b.1) : ofPairs fields = object fields := by
  rw [ofPairs, Entries.ofPairs_eq_self (Entries.nodup_keys_of_ascending h),
    Entries.sorted_eq_self h]

/-- A written document is read back within the depth that it was read at. -/
theorem value_chars {depth : ℕ} {j : Json} (hn : Nested depth j) (ho : j.Ordered) {t : List Char}
    (ht : Ended t) : value depth (j.chars ++ t) = .ok (j.reread, t) := by
  induction hn generalizing t with
  | null => exact value_of_forall_valueWith fun _ => rfl
  | bool _ b => cases b <;> exact value_of_forall_valueWith fun _ => rfl
  | number _ n => exact value_of_forall_valueWith fun _ => valueWith_number n.reads_reread ht
  | string _ s => exact value_of_forall_valueWith fun _ => valueWith_string s t
  | @array depth items _ ih =>
    cases ho with
    | array each =>
      rw [reread, rereadItems_eq_map]
      exact valueWith_array fun fuel hfuel => elements_commaSeparated
        (fun j _ => starts_chars j) (fun j hj t ht => ih j hj (each j hj) ht) t hfuel
  | @object depth fields _ ih =>
    cases ho with
    | object ascending each =>
      have hascending : (fields.map fun e => (e.1, reread e.2)).Pairwise fun a b => a.1 < b.1 :=
        List.pairwise_map.2 ascending
      rw [reread, rereadFields_eq_map, ← ofPairs_of_ascending hascending]
      exact valueWith_object fun fuel hfuel => members_commaSeparated
        (fun e he t ht => ih e he (each e he) ht) t hfuel

theorem parse_render {j : Json} (h : j.Readable) : parse j.render = .ok j.reread := by
  have hread := value_chars h.nested h.ordered ended_nil
  rw [List.append_nil] at hread
  rw [parse, document, render, String.toList_ofList, hread]
  rfl

end Json

end StateText
