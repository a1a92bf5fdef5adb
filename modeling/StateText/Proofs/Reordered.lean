import Mathlib.Data.List.Forall2
import StateText.Block

/-!
# Values in another order

Maps and objects hold their entries in an order that means nothing. A value is reordered when the
entries of its maps and objects stand in other orders, at any depth; no map or object has two
entries under one key. Reordered values are written alike.
-/

namespace StateText

theorem Entries.get?_eq_of_perm {κ α : Type} [DecidableEq κ] {es ds : Entries κ α}
    (h : es.Perm ds) (hn : (keys es).Nodup) (key : κ) : get? key es = get? key ds := by
  induction h with
  | nil => rfl
  | cons e _ ih => rw [get?_cons, get?_cons, ih (List.nodup_cons.1 hn).2]
  | swap d e es =>
    rw [get?_cons, get?_cons, get?_cons, get?_cons]
    by_cases hd : d.1 = key
    · by_cases he : e.1 = key
      · have hne : e.1 ≠ d.1 := by
          intro heq
          simp [heq] at hn
        exact absurd (he.trans hd.symm) hne
      · rw [if_neg he, if_neg he]
    · rw [if_neg hd, if_neg hd]
  | trans hp _ ih ih' => exact (ih hn).trans (ih' ((hp.map Prod.fst).nodup_iff.1 hn))

namespace Value

mutual

/-- Equal but for the orders in which maps and objects hold their entries. -/
inductive Reordered : Value → Value → Prop
  | null : Reordered null null
  | string (s : String) : Reordered (string s) (string s)
  | number (n : Number) : Reordered (number n) (number n)
  | bool (b : Bool) : Reordered (bool b) (bool b)
  | list {items items' : List Value} (each : ReorderedItems items items') :
      Reordered (list items) (list items')
  | set {items items' : List Value} (each : ReorderedItems items items') :
      Reordered (set items) (set items')
  | tuple {items items' : List Value} (each : ReorderedItems items items') :
      Reordered (tuple items) (tuple items')
  | map {entries shuffled entries' : List (String × Value)} (nodup : (Entries.keys entries).Nodup)
      (perm : entries.Perm shuffled) (each : ReorderedEntries shuffled entries') :
      Reordered (map entries) (map entries')
  | object {fields shuffled fields' : List (String × Value)} (nodup : (Entries.keys fields).Nodup)
      (perm : fields.Perm shuffled) (each : ReorderedEntries shuffled fields') :
      Reordered (object fields) (object fields')

inductive ReorderedItems : List Value → List Value → Prop
  | nil : ReorderedItems [] []
  | cons {item item' : Value} {items items' : List Value} (head : Reordered item item')
      (tail : ReorderedItems items items') : ReorderedItems (item :: items) (item' :: items')

inductive ReorderedEntries : List (String × Value) → List (String × Value) → Prop
  | nil : ReorderedEntries [] []
  | cons {v v' : Value} {entries entries' : List (String × Value)} (name : String)
      (head : Reordered v v') (tail : ReorderedEntries entries entries') :
      ReorderedEntries ((name, v) :: entries) ((name, v') :: entries')

end

variable {v v' : Value} {entries entries' shuffled : List (String × Value)}

theorem Reordered.isNull_eq (h : Reordered v v') : v.isNull = v'.isNull := by
  cases h <;> rfl

theorem keys_entryChars (entries : List (String × Value)) (indent : Nat) :
    Entries.keys (entryChars entries indent) = Entries.keys entries := by
  rw [entryChars_eq_map, Entries.keys, List.map_map]
  rfl

theorem keys_fieldChars_sublist (fields : List (String × Value)) (indent : Nat) :
    (Entries.keys (fieldChars fields indent)).Sublist (Entries.keys fields) := by
  rw [fieldChars_eq_map, Entries.keys, List.map_map]
  exact List.filter_sublist.map Prod.fst

theorem braced_eq_of_perm {es ds : Entries String (List Char)} (h : es.Perm ds)
    (hn : (Entries.keys es).Nodup) (indent : Nat) :
    Render.braced indent es = Render.braced indent ds := by
  rw [Render.braced, Entries.sorted_eq_of_perm h hn, Render.braced]

theorem braced_entryChars_eq (hn : (Entries.keys entries).Nodup) (h : entries.Perm shuffled)
    (indent inner : Nat) : Render.braced indent (entryChars entries inner) =
      Render.braced indent (entryChars shuffled inner) := by
  refine braced_eq_of_perm ?_ ?_ indent
  · rw [entryChars_eq_map, entryChars_eq_map]
    exact h.map _
  · rw [keys_entryChars]
    exact hn

theorem braced_fieldChars_eq (hn : (Entries.keys entries).Nodup) (h : entries.Perm shuffled)
    (indent inner : Nat) : Render.braced indent (fieldChars entries inner) =
      Render.braced indent (fieldChars shuffled inner) := by
  refine braced_eq_of_perm ?_ ?_ indent
  · rw [fieldChars_eq_map, fieldChars_eq_map]
    exact (h.filter _).map _
  · exact hn.sublist (keys_fieldChars_sublist _ _)

mutual

theorem Reordered.chars_eq : ∀ {v v' : Value}, Reordered v v' →
    ∀ indent, v.chars indent = v'.chars indent
  | _, _, .null, _ => rfl
  | _, _, .string _, _ => rfl
  | _, _, .number _, _ => rfl
  | _, _, .bool _, _ => rfl
  | _, _, .list each, indent => by
    rw [Value.chars, each.itemChars_eq, Value.chars]
  | _, _, .set each, indent => by
    rw [Value.chars, each.itemChars_eq, Value.chars]
  | _, _, .tuple each, indent => by
    rw [Value.chars, each.itemChars_eq, Value.chars]
  | _, _, .map nodup perm each, indent => by
    rw [Value.chars, braced_entryChars_eq nodup perm, (each.entryChars_eq _).1, Value.chars]
  | _, _, .object nodup perm each, indent => by
    rw [Value.chars, braced_fieldChars_eq nodup perm, (each.entryChars_eq _).2, Value.chars]

theorem ReorderedItems.itemChars_eq : ∀ {items items' : List Value}, ReorderedItems items items' →
    ∀ indent, itemChars items indent = itemChars items' indent
  | _, _, .nil, _ => rfl
  | _, _, .cons head tail, indent => by
    rw [itemChars, head.chars_eq, tail.itemChars_eq, itemChars]

theorem ReorderedEntries.entryChars_eq : ∀ {entries entries' : List (String × Value)},
    ReorderedEntries entries entries' → ∀ indent,
      entryChars entries indent = entryChars entries' indent ∧
        fieldChars entries indent = fieldChars entries' indent
  | _, _, .nil, _ => ⟨rfl, rfl⟩
  | _, _, .cons name head tail, indent => by
    obtain ⟨hentries, hfields⟩ := tail.entryChars_eq indent
    rw [entryChars, fieldChars, head.chars_eq, head.isNull_eq, hentries, hfields]
    exact ⟨rfl, rfl⟩

end

theorem entriesToJson_eq_map (entries : List (String × Value)) :
    entriesToJson entries = entries.map fun e => (e.1, e.2.toJson) := by
  induction entries with
  | nil => rfl
  | cons e entries ih => simp [entriesToJson, ih]

theorem sorted_entriesToJson_eq (hn : (Entries.keys entries).Nodup) (h : entries.Perm shuffled) :
    Entries.sorted (entriesToJson entries) = Entries.sorted (entriesToJson shuffled) := by
  refine Entries.sorted_eq_of_perm ?_ ?_
  · rw [entriesToJson_eq_map, entriesToJson_eq_map]
    exact h.map _
  · rw [keys_entriesToJson]
    exact hn

mutual

/-- The documents of reordered values hold their members in the same order. -/
theorem Reordered.toJson_eq : ∀ {v v' : Value}, Reordered v v' → v.toJson = v'.toJson
  | _, _, .null => rfl
  | _, _, .string _ => rfl
  | _, _, .number _ => rfl
  | _, _, .bool _ => rfl
  | _, _, .list each => by rw [toJson, each.itemsToJson_eq, toJson]
  | _, _, .set each => by rw [toJson, each.itemsToJson_eq, toJson]
  | _, _, .tuple each => by rw [toJson, each.itemsToJson_eq, toJson]
  | _, _, .map nodup perm each => by
    rw [toJson, sorted_entriesToJson_eq nodup perm, each.entriesToJson_eq, toJson]
  | _, _, .object nodup perm each => by
    rw [toJson, sorted_entriesToJson_eq nodup perm, each.entriesToJson_eq, toJson]

theorem ReorderedItems.itemsToJson_eq : ∀ {items items' : List Value},
    ReorderedItems items items' → itemsToJson items = itemsToJson items'
  | _, _, .nil => rfl
  | _, _, .cons head tail => by
    rw [itemsToJson, head.toJson_eq, tail.itemsToJson_eq, itemsToJson]

theorem ReorderedEntries.entriesToJson_eq : ∀ {entries entries' : List (String × Value)},
    ReorderedEntries entries entries' → entriesToJson entries = entriesToJson entries'
  | _, _, .nil => rfl
  | _, _, .cons name head tail => by
    rw [entriesToJson, head.toJson_eq, tail.entriesToJson_eq, entriesToJson]

end

theorem ReorderedEntries.get?_cases (h : ReorderedEntries entries entries') (name : String) :
    (Entries.get? name entries = none ∧ Entries.get? name entries' = none) ∨
      ∃ v v', Entries.get? name entries = some v ∧ Entries.get? name entries' = some v' ∧
        Reordered v v' := by
  induction entries generalizing entries' with
  | nil =>
    cases h
    exact .inl ⟨rfl, rfl⟩
  | cons e entries ih =>
    obtain ⟨k, v⟩ := e
    cases h with
    | cons _ head tail =>
      rw [Entries.get?_cons, Entries.get?_cons]
      by_cases hk : k = name
      · rw [if_pos hk, if_pos hk]
        exact .inr ⟨_, _, rfl, rfl, head⟩
      · rw [if_neg hk, if_neg hk]
        exact ih tail

theorem Reordered.field (h : Reordered v v') (name : String) :
    Reordered (v.field name) (v'.field name) := by
  cases h with
  | object nodup perm each =>
    rw [field_object, field_object, Entries.get?_eq_of_perm perm nodup]
    rcases each.get?_cases name with ⟨hn, hn'⟩ | ⟨v, v', hv, hv', hr⟩
    · rw [hn, hn']
      exact .null
    · rw [hv, hv']
      exact hr
  | _ => exact .null

end Value

theorem Block.attributeLines_reordered {v v' : Value} (h : v.Reordered v')
    (schema : ResourceSchema) : attributeLines schema v = attributeLines schema v' := by
  have hline (a : Attribute) :
      attributeLine a.name (v.field a.name) = attributeLine a.name (v'.field a.name) := by
    have hf := h.field a.name
    rw [attributeLine, attributeLine, hf.isNull_eq, hf.chars_eq]
  simp only [attributeLines, hline]

end StateText
