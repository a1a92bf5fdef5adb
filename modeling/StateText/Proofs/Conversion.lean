import StateText.Proofs.Distinct

/-!
# Values as documents

A document forgets what kind of collection a value is, and nothing else: `untyped` is what comes
back, a tuple for every sequence and an object for every map. Maps and objects are written alike
but for null entries, so a value without null entries in its maps is written like what comes back.
-/

namespace StateText

namespace Value

mutual

/-- The value with a tuple for each list and set and an object for each map, at any depth. -/
def untyped : Value → Value
  | list items => tuple (untypedItems items)
  | set items => tuple (untypedItems items)
  | tuple items => tuple (untypedItems items)
  | map entries => object (untypedEntries entries)
  | object fields => object (untypedEntries fields)
  | v => v

def untypedItems : List Value → List Value
  | [] => []
  | item :: items => untyped item :: untypedItems items

def untypedEntries : List (String × Value) → List (String × Value)
  | [] => []
  | (name, v) :: entries => (name, untyped v) :: untypedEntries entries

end

theorem untypedItems_eq_map (items : List Value) : untypedItems items = items.map untyped := by
  induction items with
  | nil => rfl
  | cons item items ih => rw [untypedItems, ih, List.map_cons]

theorem untypedEntries_eq_map (entries : List (String × Value)) :
    untypedEntries entries = entries.map fun e => (e.1, e.2.untyped) := by
  induction entries with
  | nil => rfl
  | cons e entries ih => rw [untypedEntries, ih, List.map_cons]

theorem isNull_untyped (v : Value) : v.untyped.isNull = v.isNull := by
  cases v <;> rfl

inductive EachMapping (P Q : List (String × Value) → Prop) : Value → Prop
  | null : EachMapping P Q null
  | string (s : String) : EachMapping P Q (string s)
  | number (n : Number) : EachMapping P Q (number n)
  | bool (b : Bool) : EachMapping P Q (bool b)
  | list {items : List Value} (each : ∀ v ∈ items, EachMapping P Q v) : EachMapping P Q (list items)
  | set {items : List Value} (each : ∀ v ∈ items, EachMapping P Q v) : EachMapping P Q (set items)
  | tuple {items : List Value} (each : ∀ v ∈ items, EachMapping P Q v) :
      EachMapping P Q (tuple items)
  | map {entries : List (String × Value)} (holds : P entries)
      (each : ∀ e ∈ entries, EachMapping P Q e.2) : EachMapping P Q (map entries)
  | object {fields : List (String × Value)} (holds : Q fields)
      (each : ∀ e ∈ fields, EachMapping P Q e.2) : EachMapping P Q (object fields)

def Distinct (v : Value) : Prop :=
  v.EachMapping (fun entries => (Entries.keys entries).Nodup) fun fields =>
    (Entries.keys fields).Nodup

/-- No map has a null entry; the fields of objects may be null. -/
def Filled (v : Value) : Prop :=
  v.EachMapping (fun entries => ∀ e ∈ entries, e.2.isNull = false) fun _ => True

/-! ### From a document to a value and back -/

theorem toJson_ofJson {j : Json} (h : j.Ordered) : (ofJson j).toJson = j := by
  induction h with
  | null => rfl
  | bool b => rfl
  | number n => rfl
  | string s => rfl
  | @array items _ ih =>
    rw [ofJson, toJson, ofItems_eq_map, itemsToJson_eq_map, List.map_map]
    exact congrArg Json.array ((List.map_congr_left ih).trans (List.map_id items))
  | @object fields ascending _ ih =>
    have hfields : (fields.map fun e => (e.1, (ofJson e.2).toJson)) = fields := by
      refine Eq.trans (List.map_congr_left fun e he => ?_) (List.map_id fields)
      rw [ih e he, id_eq]
    rw [ofJson, toJson, ofFields_eq_map, entriesToJson_eq_map, List.map_map]
    exact congrArg Json.object ((congrArg Entries.sorted hfields).trans
      (Entries.sorted_eq_self ascending))

/-! ### From a value to a document and back -/

theorem ofJson_array_toJson (items : List Value) :
    ofJson (.array (itemsToJson items)) = tuple (items.map fun v => ofJson v.toJson) := by
  rw [ofJson, ofItems_eq_map, itemsToJson_eq_map, List.map_map]
  rfl

/-- The document lists its members by name, whatever the order of the entries. -/
theorem ofJson_object_toJson (entries : List (String × Value)) :
    ofJson (.object (Entries.sorted (entriesToJson entries))) =
      object ((Entries.sorted entries).map fun e => (e.1, ofJson e.2.toJson)) := by
  rw [ofJson, ofFields_eq_map, entriesToJson_eq_map, Entries.sorted_map, List.map_map]
  rfl

theorem reordered_untypedItems {items : List Value}
    (h : ∀ v ∈ items, v.untyped.Reordered (ofJson v.toJson)) :
    (tuple (untypedItems items)).Reordered (ofJson (.array (itemsToJson items))) := by
  rw [untypedItems_eq_map, ofJson_array_toJson]
  exact .tuple (reorderedItems_map h)

theorem reordered_untypedEntries {entries : List (String × Value)}
    (hn : (Entries.keys entries).Nodup)
    (h : ∀ e ∈ entries, e.2.untyped.Reordered (ofJson e.2.toJson)) :
    (object (untypedEntries entries)).Reordered
      (ofJson (.object (Entries.sorted (entriesToJson entries)))) := by
  have hkeys : Entries.keys (untypedEntries entries) = Entries.keys entries := by
    rw [untypedEntries_eq_map, Entries.keys, List.map_map]
    rfl
  have hperm : (untypedEntries entries).Perm
      ((Entries.sorted entries).map fun e => (e.1, e.2.untyped)) := by
    rw [untypedEntries_eq_map]
    exact (Entries.sortBy_perm _ entries).symm.map _
  have hsorted : ∀ e ∈ Entries.sorted entries, e.2.untyped.Reordered (ofJson e.2.toJson) :=
    fun e he => h e (Entries.mem_sortBy.1 he)
  rw [ofJson_object_toJson]
  exact .object (by rwa [hkeys]) hperm
    (reorderedEntries_map (f := untyped) (g := fun v => ofJson v.toJson) hsorted)

theorem reordered_untyped {v : Value} (h : v.Distinct) : v.untyped.Reordered (ofJson v.toJson) := by
  induction h with
  | null => exact .null
  | string s => exact .string s
  | number n => exact .number n
  | bool b => exact .bool b
  | list _ ih => exact reordered_untypedItems ih
  | set _ ih => exact reordered_untypedItems ih
  | tuple _ ih => exact reordered_untypedItems ih
  | map nodup _ ih => exact reordered_untypedEntries nodup ih
  | object nodup _ ih => exact reordered_untypedEntries nodup ih

/-! ### The text of what comes back -/

theorem written_untypedEntries (fields : List (String × Value)) :
    written (untypedEntries fields) = (written fields).map fun e => (e.1, e.2.untyped) := by
  rw [untypedEntries_eq_map, written, written, List.filter_map]
  congr 1
  exact List.filter_congr fun e _ => by rw [Function.comp_apply, isNull_untyped]

theorem written_eq_self {entries : List (String × Value)}
    (h : ∀ e ∈ entries, e.2.isNull = false) : written entries = entries :=
  List.filter_eq_self.2 fun e he => by rw [h e he]; rfl

theorem itemChars_untypedItems {items : List Value} {indent : Nat}
    (h : ∀ v ∈ items, v.untyped.chars indent = v.chars indent) :
    itemChars (untypedItems items) indent = itemChars items indent := by
  rw [itemChars_eq_map, itemChars_eq_map, untypedItems_eq_map, List.map_map]
  exact List.map_congr_left h

theorem fieldChars_untypedEntries {fields : List (String × Value)} {indent : Nat}
    (h : ∀ e ∈ fields, e.2.untyped.chars indent = e.2.chars indent) :
    fieldChars (untypedEntries fields) indent = fieldChars fields indent := by
  rw [fieldChars_eq_map, fieldChars_eq_map, written_untypedEntries, List.map_map]
  exact List.map_congr_left fun e he => Prod.ext rfl (h e (List.mem_filter.1 he).1)

/-- Null entries are all that tells the text of a map from that of an object. -/
theorem chars_untyped {v : Value} (h : v.Filled) (indent : Nat) :
    v.untyped.chars indent = v.chars indent := by
  induction h generalizing indent with
  | null => rfl
  | string s => rfl
  | number n => rfl
  | bool b => rfl
  | list _ ih => rw [untyped, chars, chars, itemChars_untypedItems fun v hv => ih v hv _]
  | set _ ih => rw [untyped, chars, chars, itemChars_untypedItems fun v hv => ih v hv _]
  | tuple _ ih => rw [untyped, chars, chars, itemChars_untypedItems fun v hv => ih v hv _]
  | map filled _ ih =>
    rw [untyped, chars, chars, fieldChars_untypedEntries fun e he => ih e he _, fieldChars_eq_map,
      written_eq_self filled, entryChars_eq_map]
  | object _ _ ih => rw [untyped, chars, chars, fieldChars_untypedEntries fun e he => ih e he _]

/-- A document comes back as it was. A value comes back with tuples for its sequences and objects
for its maps, in some order of their entries, and is written like what comes back if none of its
maps has a null entry. -/
theorem conversion_round_trip :
    (∀ j : Json, j.Ordered → (ofJson j).toJson = j) ∧
      ∀ v : Value, v.Distinct → v.untyped.Reordered (ofJson v.toJson) ∧
        (v.Filled → ∀ indent, v.render indent = (ofJson v.toJson).render indent) := by
  refine ⟨fun _ => toJson_ofJson, fun v hv => ⟨reordered_untyped hv, fun hfilled indent => ?_⟩⟩
  rw [render, render, ← (reordered_untyped hv).chars_eq, chars_untyped hfilled]

/-- A set in a map in a list, a null field of an object, and entries out of order. -/
theorem conversion_round_trip_nested :
    let v : Value := .list [.map [("b", .set [.null]), ("a", .object [("x", .null)])]]
    let j : Json := .array [.object [("a", .object [("x", .null)]), ("b", .array [.null])]]
    v.Distinct ∧ v.Filled ∧ j.Ordered ∧ v.toJson = j ∧ (ofJson j).toJson = j ∧
      v.untyped.Reordered (ofJson v.toJson) ∧
        v.render 4 = (ofJson v.toJson).render 4 := by
  intro v j
  have hj : j.Ordered := by
    refine .array (List.forall_mem_singleton.2 (.object (by decide) ?_))
    refine List.forall_mem_cons.2 ⟨?_, List.forall_mem_singleton.2 ?_⟩
    · exact .object (by decide) (List.forall_mem_singleton.2 .null)
    · exact .array (List.forall_mem_singleton.2 .null)
  have heach {P Q : List (String × Value) → Prop}
      (houter : P [("b", .set [.null]), ("a", .object [("x", .null)])])
      (hinner : Q [("x", .null)]) : v.EachMapping P Q := by
    refine .list (List.forall_mem_singleton.2 (.map houter ?_))
    refine List.forall_mem_cons.2 ⟨?_, List.forall_mem_singleton.2 ?_⟩
    · exact .set (List.forall_mem_singleton.2 .null)
    · exact .object hinner (List.forall_mem_singleton.2 .null)
  have hdistinct : v.Distinct := heach (by decide) (by decide)
  have hfilled : v.Filled := heach (by decide) trivial
  obtain ⟨hback, hread⟩ := conversion_round_trip
  obtain ⟨hreordered, hrender⟩ := hread v hdistinct
  exact ⟨hdistinct, hfilled, hj, rfl, hback j hj, hreordered, hrender hfilled 4⟩

/-- A null entry of a map is written, a null field of an object is not. -/
example : (map [("a", .null)]).render 0 = "\x7b\n    a = null\n\x7d" ∧
    (ofJson (map [("a", .null)]).toJson).render 0 = "\x7b\x7d" := by
  decide

end Value

end StateText
