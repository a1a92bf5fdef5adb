import StateText.Proofs.ReadDocument
import StateText.Proofs.Reordered

/-!
# Decoded values

A document that was read lists the members of an object by name and has none twice. What is decoded
from it has none twice either, so a decoded value is a reordering of itself.
-/

namespace StateText

namespace Entries

variable {κ α : Type} [DecidableEq κ]

theorem mem_put {key : κ} {value : α} {es : Entries κ α} {e : κ × α}
    (h : e ∈ put key value es) : e = (key, value) ∨ e ∈ es := by
  induction es with
  | nil => exact .inl (List.mem_singleton.1 h)
  | cons d es ih =>
    rw [put_cons] at h
    split at h
    · exact (List.mem_cons.1 h).imp_right (List.mem_cons_of_mem _)
    · rcases List.mem_cons.1 h with rfl | h
      · exact .inr List.mem_cons_self
      · exact (ih h).imp_right (List.mem_cons_of_mem _)

theorem nodup_keys_put {key : κ} {value : α} {es : Entries κ α} (h : (keys es).Nodup) :
    (keys (put key value es)).Nodup := by
  rw [keys_put]
  split
  · exact h
  next hk =>
    refine List.nodup_append.2 ⟨h, by simp, ?_⟩
    intro k hmem d hd heq
    exact hk (List.mem_singleton.1 hd ▸ heq ▸ hmem)

theorem nodup_keys_foldl_put (pairs : List (κ × α)) {es : Entries κ α} (h : (keys es).Nodup) :
    (keys (pairs.foldl (fun es p => put p.1 p.2 es) es)).Nodup := by
  induction pairs generalizing es with
  | nil => exact h
  | cons p pairs ih => exact ih (nodup_keys_put h)

theorem mem_foldl_put {pairs : List (κ × α)} {es : Entries κ α} {e : κ × α}
    (h : e ∈ pairs.foldl (fun es p => put p.1 p.2 es) es) : e ∈ pairs ∨ e ∈ es := by
  induction pairs generalizing es with
  | nil => exact .inr h
  | cons p pairs ih =>
    rcases ih h with h | h
    · exact .inl (List.mem_cons_of_mem _ h)
    · rcases mem_put h with rfl | h
      · exact .inl List.mem_cons_self
      · exact .inr h

theorem nodup_keys_ofPairs (pairs : List (κ × α)) : (keys (ofPairs pairs)).Nodup :=
  nodup_keys_foldl_put pairs List.nodup_nil

theorem nodup_keys_of_ascending {es : Entries String α} (h : es.Pairwise fun a b => a.1 < b.1) :
    (keys es).Nodup :=
  List.pairwise_map.2 (h.imp fun hab => (Std.ne_of_lt hab))

theorem mem_of_mem_ofPairs {pairs : List (κ × α)} {e : κ × α} (h : e ∈ ofPairs pairs) :
    e ∈ pairs :=
  (mem_foldl_put h).resolve_right List.not_mem_nil

end Entries

inductive Json.Distinct : Json → Prop
  | null : Distinct null
  | bool (b : Bool) : Distinct (bool b)
  | number (n : Number) : Distinct (number n)
  | string (s : String) : Distinct (string s)
  | array {items : List Json} (each : ∀ j ∈ items, Distinct j) : Distinct (array items)
  | object {fields : List (String × Json)} (nodup : (Entries.keys fields).Nodup)
      (each : ∀ e ∈ fields, Distinct e.2) : Distinct (object fields)

namespace Json

theorem distinct_ofPairs {pairs : List (String × Json)} (h : ∀ p ∈ pairs, Distinct p.2) :
    (ofPairs pairs).Distinct := by
  have hp : (Entries.sorted (Entries.ofPairs pairs)).Perm (Entries.ofPairs pairs) :=
    Entries.sortBy_perm _ _
  refine .object ?_ ?_
  · exact ((hp.map Prod.fst).nodup_iff).2 (Entries.nodup_keys_ofPairs pairs)
  · intro e he
    exact h e (Entries.mem_of_mem_ofPairs (hp.mem_iff.1 he))

/-- A text that is read as a document gives one without repeated names. -/
theorem distinct_of_parse {text : String} {j : Json} (h : parse text = .ok j) : j.Distinct :=
  Hereditary.of_parse ⟨.null, .bool, .number, .string, .array, distinct_ofPairs⟩ h

/-- Objects list their members by name, at any depth. -/
inductive Ordered : Json → Prop
  | null : Ordered null
  | bool (b : Bool) : Ordered (bool b)
  | number (n : Number) : Ordered (number n)
  | string (s : String) : Ordered (string s)
  | array {items : List Json} (each : ∀ j ∈ items, Ordered j) : Ordered (array items)
  | object {fields : List (String × Json)} (ascending : fields.Pairwise fun a b => a.1 < b.1)
      (each : ∀ e ∈ fields, Ordered e.2) : Ordered (object fields)

theorem ordered_ofPairs {pairs : List (String × Json)} (h : ∀ p ∈ pairs, Ordered p.2) :
    (ofPairs pairs).Ordered := by
  refine .object (Entries.sorted_pairwise_lt (Entries.nodup_keys_ofPairs pairs)) ?_
  intro e he
  exact h e (Entries.mem_of_mem_ofPairs (Entries.mem_sortBy.1 he))

theorem hereditary_ordered : Hereditary Ordered :=
  ⟨.null, .bool, .number, .string, .array, ordered_ofPairs⟩

theorem ordered_of_value {depth : Nat} {cs rest : List Char} {j : Json}
    (h : Reader.value depth cs = .ok (j, rest)) : j.Ordered :=
  hereditary_ordered.of_value h

theorem ordered_of_parse {text : String} {j : Json} (h : parse text = .ok j) : j.Ordered :=
  hereditary_ordered.of_parse h

end Json

namespace Value

theorem reorderedItems_map {f g : Value → Value} {items : List Value}
    (h : ∀ v ∈ items, (f v).Reordered (g v)) : ReorderedItems (items.map f) (items.map g) := by
  induction items with
  | nil => exact .nil
  | cons v items ih =>
    obtain ⟨hv, hitems⟩ := List.forall_mem_cons.1 h
    exact .cons hv (ih hitems)

theorem reorderedEntries_map {f g : Value → Value} {entries : List (String × Value)}
    (h : ∀ e ∈ entries, (f e.2).Reordered (g e.2)) :
    ReorderedEntries (entries.map fun e => (e.1, f e.2)) (entries.map fun e => (e.1, g e.2)) := by
  induction entries with
  | nil => exact .nil
  | cons e entries ih =>
    obtain ⟨he, hentries⟩ := List.forall_mem_cons.1 h
    exact .cons e.1 he (ih hentries)

theorem reorderedItems_self {items : List Value} (h : ∀ v ∈ items, v.Reordered v) :
    ReorderedItems items items := by
  have hself := reorderedItems_map (f := id) (g := id) h
  rwa [List.map_id] at hself

theorem reorderedEntries_self {entries : List (String × Value)}
    (h : ∀ e ∈ entries, e.2.Reordered e.2) : ReorderedEntries entries entries := by
  have hself := reorderedEntries_map (f := id) (g := id) h
  have hid : (entries.map fun e => (e.1, id e.2)) = entries := List.map_id entries
  rwa [hid] at hself

mutual

theorem reordered_ofJson : ∀ {j : Json}, j.Distinct → (ofJson j).Reordered (ofJson j)
  | .null, _ => .null
  | .bool b, _ => .bool b
  | .number n, _ => .number n
  | .string s, _ => .string s
  | .array _, .array each => .tuple (reordered_ofItems each)
  | .object _, .object nodup each =>
    .object (by rwa [keys_ofFields]) (.refl _) (reordered_ofFields each)

theorem reordered_ofItems : ∀ {items : List Json}, (∀ j ∈ items, j.Distinct) →
    ReorderedItems (ofItems items) (ofItems items)
  | [], _ => .nil
  | j :: _, h =>
    .cons (reordered_ofJson (h j List.mem_cons_self))
      (reordered_ofItems fun j hj => h j (List.mem_cons_of_mem _ hj))

theorem reordered_ofFields : ∀ {fields : List (String × Json)}, (∀ e ∈ fields, e.2.Distinct) →
    ReorderedEntries (ofFields fields) (ofFields fields)
  | [], _ => .nil
  | (name, j) :: _, h =>
    .cons name (reordered_ofJson (h (name, j) List.mem_cons_self))
      (reordered_ofFields fun e he => h e (List.mem_cons_of_mem _ he))

end

end Value

namespace Decode

variable {α : Type}

theorem elements_forall {P : α → Prop} {f : Json → Except DecodeError α} {js : List Json}
    (h : ∀ j ∈ js, ∀ a, f j = .ok a → P a) {i : Nat} {as : List α}
    (he : elements f i js = .ok as) : ∀ a ∈ as, P a := by
  induction js generalizing i as with
  | nil =>
    cases he
    exact fun a ha => absurd ha List.not_mem_nil
  | cons j js ih =>
    obtain ⟨hj, hjs⟩ := List.forall_mem_cons.1 h
    rw [elements] at he
    split at he
    · cases he
    next a ha =>
      obtain ⟨bs, hbs, rfl⟩ := map_eq_ok he
      exact List.forall_mem_cons.2 ⟨hj a ha, ih hjs hbs⟩

theorem entries_forall {P : α → Prop} {f : Json → Except DecodeError α}
    {js : List (String × Json)} (h : ∀ e ∈ js, ∀ a, f e.2 = .ok a → P a)
    {es : List (String × α)} (he : entries f js = .ok es) :
    Entries.keys es = Entries.keys js ∧ ∀ e ∈ es, P e.2 := by
  induction js generalizing es with
  | nil =>
    cases he
    exact ⟨rfl, fun a ha => absurd ha List.not_mem_nil⟩
  | cons d js ih =>
    obtain ⟨hd, hjs⟩ := List.forall_mem_cons.1 h
    rw [entries] at he
    split at he
    · cases he
    next a ha =>
      obtain ⟨bs, hbs, rfl⟩ := map_eq_ok he
      obtain ⟨hkeys, hall⟩ := ih hjs hbs
      exact ⟨by rw [Entries.keys_cons, hkeys, Entries.keys_cons],
        List.forall_mem_cons.2 ⟨hd a ha, hall⟩⟩

theorem distinct_get? {js : List (String × Json)} (h : ∀ e ∈ js, e.2.Distinct) (name : String) :
    ((Entries.get? name js).getD .null).Distinct := by
  induction js with
  | nil => exact .null
  | cons e js ih =>
    obtain ⟨he, hjs⟩ := List.forall_mem_cons.1 h
    rw [Entries.get?_cons]
    split
    · exact he
    · exact ih hjs

mutual

/-- What fits a type has no entry twice when its document has none. -/
theorem reordered_fit : ∀ (type : AttributeType) {j : Json} {v : Value}, j.Distinct →
    fit type j = .ok v → v.Reordered v
  | .string, j, v, _, hv => by
    cases j <;> cases hv <;> first | exact .null | exact .string _
  | .number, j, v, _, hv => by
    cases j with
    | null => cases hv; exact .null
    | number n => cases hv; exact .number n
    | string s =>
      rw [fit] at hv
      split at hv <;> cases hv
      exact .number _
    | _ => cases hv
  | .bool, j, v, _, hv => by
    cases j with
    | null => cases hv; exact .null
    | bool b => cases hv; exact .bool b
    | string s =>
      rw [fit] at hv
      split_ifs at hv <;> cases hv <;> exact .bool _
    | _ => cases hv
  | .dynamic, j, v, hj, hv => by
    cases j <;> cases hv <;> first | exact .null | exact Value.reordered_ofJson hj
  | .list element, j, v, hj, hv => by
    cases hj with
    | null => cases hv; exact .null
    | array each =>
      rw [fit] at hv
      obtain ⟨vs, hvs, rfl⟩ := map_eq_ok hv
      exact .list (Value.reorderedItems_self
        (elements_forall (fun j hj _ => reordered_fit element (each j hj)) hvs))
    | _ => cases hv
  | .set element, j, v, hj, hv => by
    cases hj with
    | null => cases hv; exact .null
    | array each =>
      rw [fit] at hv
      obtain ⟨vs, hvs, rfl⟩ := map_eq_ok hv
      exact .set (Value.reorderedItems_self
        (elements_forall (fun j hj _ => reordered_fit element (each j hj)) hvs))
    | _ => cases hv
  | .map element, j, v, hj, hv => by
    cases hj with
    | null => cases hv; exact .null
    | object nodup each =>
      rw [fit] at hv
      obtain ⟨vs, hvs, rfl⟩ := map_eq_ok hv
      obtain ⟨hkeys, hall⟩ := entries_forall (fun e he _ => reordered_fit element (each e he)) hvs
      exact .map (by rwa [hkeys]) (.refl _) (Value.reorderedEntries_self hall)
    | _ => cases hv
  | .tuple types, j, v, hj, hv => by
    cases hj with
    | null => cases hv; exact .null
    | array each =>
      rw [fit] at hv
      split at hv
      · obtain ⟨vs, hvs, rfl⟩ := map_eq_ok hv
        exact .tuple (Value.reorderedItems_self (reordered_fitTuple types each hvs))
      · cases hv
    | _ => cases hv
  | .object fields, j, v, hj, hv => by
    cases hj with
    | null => cases hv; exact .null
    | object nodup each =>
      rw [fit] at hv
      split at hv
      · cases hv
      · obtain ⟨vs, hvs, rfl⟩ := map_eq_ok hv
        have hall := reordered_fitFields fields each hvs
        refine .object (Entries.nodup_keys_ofPairs vs) (.refl _) (Value.reorderedEntries_self ?_)
        exact fun e he => hall e (Entries.mem_of_mem_ofPairs he)
    | _ => cases hv

theorem reordered_fitTuple : ∀ (types : List AttributeType) {i : Nat} {js : List Json}
    {vs : List Value}, (∀ j ∈ js, j.Distinct) → fitTuple types i js = .ok vs →
      ∀ v ∈ vs, v.Reordered v
  | [], i, js, vs, _, hvs => by
    cases hvs
    exact fun v hv => absurd hv List.not_mem_nil
  | type :: types, i, [], vs, _, hvs => by
    cases hvs
    exact fun v hv => absurd hv List.not_mem_nil
  | type :: types, i, j :: js, vs, h, hvs => by
    obtain ⟨hj, hjs⟩ := List.forall_mem_cons.1 h
    rw [fitTuple] at hvs
    split at hvs
    · cases hvs
    next v hv =>
      obtain ⟨us, hus, rfl⟩ := map_eq_ok hvs
      exact List.forall_mem_cons.2 ⟨reordered_fit type hj hv, reordered_fitTuple types hjs hus⟩

theorem reordered_fitFields : ∀ (fields : List (String × AttributeType))
    {js : List (String × Json)} {vs : List (String × Value)}, (∀ e ∈ js, e.2.Distinct) →
      fitFields fields js = .ok vs → ∀ e ∈ vs, e.2.Reordered e.2
  | [], js, vs, _, hvs => by
    cases hvs
    exact fun v hv => absurd hv List.not_mem_nil
  | (name, type) :: fields, js, vs, h, hvs => by
    rw [fitFields] at hvs
    split at hvs
    · cases hvs
    next v hv =>
      obtain ⟨us, hus, rfl⟩ := map_eq_ok hvs
      exact List.forall_mem_cons.2
        ⟨reordered_fit type (distinct_get? h name) hv, reordered_fitFields fields h hus⟩

end

/-- A decoded value differs from itself in nothing, so no map or object in it has a key twice. -/
theorem reordered_of_decode {type : AttributeType} {text : String} {v : Value}
    (h : decode type text = .ok v) : v.Reordered v := by
  rw [decode] at h
  split at h
  · cases h
  next j hj => exact reordered_fit type (Json.distinct_of_parse hj) h

end Decode

end StateText
