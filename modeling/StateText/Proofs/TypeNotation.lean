import Mathlib.Data.Set.Function
import StateText.AttributeType.Notation
import StateText.Proofs.Distinct
import StateText.Proofs.Parts

/-!
# The notation of a type

`IsNotation` is the grammar of the documents that stand for types, and `toJson` writes the one
document that stands for a type. Reading accepts exactly the grammar, and is a bijection from its
documents to the types that list the fields of their objects by name: `ofJson_bijOn`.
-/

namespace StateText.AttributeType

mutual

def toJson : AttributeType → Json
  | string => .string "string"
  | number => .string "number"
  | bool => .string "bool"
  | dynamic => .string "dynamic"
  | list element => .array [.string "list", toJson element]
  | set element => .array [.string "set", toJson element]
  | map element => .array [.string "map", toJson element]
  | object fields => .array [.string "object", .object (fieldsToJson fields)]
  | tuple elements => .array [.string "tuple", .array (elementsToJson elements)]

def fieldsToJson : List (String × AttributeType) → List (String × Json)
  | [] => []
  | (name, type) :: fields => (name, toJson type) :: fieldsToJson fields

def elementsToJson : List AttributeType → List Json
  | [] => []
  | type :: types => toJson type :: elementsToJson types

end

theorem fieldsToJson_eq_map (fields : List (String × AttributeType)) :
    fieldsToJson fields = fields.map fun f => (f.1, f.2.toJson) := by
  induction fields with
  | nil => rfl
  | cons f fields ih => rw [fieldsToJson, ih, List.map_cons]

theorem elementsToJson_eq_map (types : List AttributeType) :
    elementsToJson types = types.map toJson := by
  induction types with
  | nil => rfl
  | cons type types ih => rw [elementsToJson, ih, List.map_cons]

/-! ### Reading what is written -/

mutual

theorem ofJson_toJson : ∀ type : AttributeType, ofJson type.toJson = .ok type
  | string => rfl
  | number => rfl
  | bool => rfl
  | dynamic => rfl
  | list element => congrArg (Except.map list) (ofJson_toJson element)
  | set element => congrArg (Except.map set) (ofJson_toJson element)
  | map element => congrArg (Except.map map) (ofJson_toJson element)
  | object fields => congrArg (Except.map object) (ofFields_fieldsToJson fields)
  | tuple types => congrArg (Except.map tuple) (ofElements_elementsToJson types)

theorem ofFields_fieldsToJson : ∀ fields : List (String × AttributeType),
    ofFields (fieldsToJson fields) = .ok fields
  | [] => rfl
  | (name, type) :: fields => by
    rw [fieldsToJson, ofFields, ofJson_toJson type, ofFields_fieldsToJson fields]
    rfl

theorem ofElements_elementsToJson : ∀ types : List AttributeType,
    ofElements (elementsToJson types) = .ok types
  | [] => rfl
  | type :: types => by
    rw [elementsToJson, ofElements, ofJson_toJson type, ofElements_elementsToJson types]
    rfl

end

theorem toJson_of_primitive? {word : String} {type : AttributeType}
    (h : primitive? word = some type) : type.toJson = .string word := by
  unfold primitive? at h
  split at h <;> cases h <;> rfl

theorem eq_string_of_asString? {j : Json} {s : String} (h : j.asString? = some s) :
    j = .string s := by
  cases j with
  | string s' => exact congrArg Json.string (Option.some.inj h)
  | _ => cases h

mutual

/-- A document that is read as a type is how the type is written. -/
theorem toJson_of_ofJson : ∀ {j : Json} {type : AttributeType}, ofJson j = .ok type →
    type.toJson = j
  | .null, _, h => by cases h
  | .bool _, _, h => by cases h
  | .number _, _, h => by cases h
  | .object _, _, h => by cases h
  | .string word, type, h => by
    rw [ofJson] at h
    split at h
    next type' hword =>
      cases h
      exact toJson_of_primitive? hword
    next => cases h
  | .array [], _, h => by cases h
  | .array [_], _, h => by cases h
  | .array (_ :: _ :: _ :: _), _, h => by cases h
  | .array [kind, inner], type, h => by
    rw [ofJson.eq_def] at h
    dsimp only at h
    split at h
    next hkind =>
      obtain ⟨element, helement, rfl⟩ := map_eq_ok h
      rw [eq_string_of_asString? hkind, toJson, toJson_of_ofJson helement]
    next hkind =>
      obtain ⟨element, helement, rfl⟩ := map_eq_ok h
      rw [eq_string_of_asString? hkind, toJson, toJson_of_ofJson helement]
    next hkind =>
      obtain ⟨element, helement, rfl⟩ := map_eq_ok h
      rw [eq_string_of_asString? hkind, toJson, toJson_of_ofJson helement]
    next hkind =>
      split at h
      next fields =>
        obtain ⟨types, htypes, rfl⟩ := map_eq_ok h
        rw [eq_string_of_asString? hkind, toJson, fieldsToJson_of_ofFields htypes]
      next => cases h
    next hkind =>
      split at h
      next elements =>
        obtain ⟨types, htypes, rfl⟩ := map_eq_ok h
        rw [eq_string_of_asString? hkind, toJson, elementsToJson_of_ofElements htypes]
      next => cases h
    next => cases h

theorem fieldsToJson_of_ofFields : ∀ {js : List (String × Json)}
    {fields : List (String × AttributeType)}, ofFields js = .ok fields → fieldsToJson fields = js
  | [], _, h => by
    cases h
    rfl
  | (name, j) :: js, fields, h => by
    rw [ofFields] at h
    split at h
    next => cases h
    next type htype =>
      obtain ⟨rest, hrest, rfl⟩ := map_eq_ok h
      rw [fieldsToJson, toJson_of_ofJson htype, fieldsToJson_of_ofFields hrest]

theorem elementsToJson_of_ofElements : ∀ {js : List Json} {types : List AttributeType},
    ofElements js = .ok types → elementsToJson types = js
  | [], _, h => by
    cases h
    rfl
  | j :: js, types, h => by
    rw [ofElements] at h
    split at h
    next => cases h
    next type htype =>
      obtain ⟨rest, hrest, rfl⟩ := map_eq_ok h
      rw [elementsToJson, toJson_of_ofJson htype, elementsToJson_of_ofElements hrest]

end

/-- A type is read from one document only. -/
theorem ofJson_eq_ok_iff {j : Json} {type : AttributeType} :
    ofJson j = .ok type ↔ j = type.toJson := by
  refine ⟨fun h => (toJson_of_ofJson h).symm, ?_⟩
  rintro rfl
  exact ofJson_toJson type

/-! ### The grammar -/

inductive IsNotation : Json → Prop
  | string : IsNotation (.string "string")
  | number : IsNotation (.string "number")
  | bool : IsNotation (.string "bool")
  | dynamic : IsNotation (.string "dynamic")
  | list {inner : Json} (element : IsNotation inner) : IsNotation (.array [.string "list", inner])
  | set {inner : Json} (element : IsNotation inner) : IsNotation (.array [.string "set", inner])
  | map {inner : Json} (element : IsNotation inner) : IsNotation (.array [.string "map", inner])
  | object {fields : List (String × Json)} (each : ∀ f ∈ fields, IsNotation f.2) :
      IsNotation (.array [.string "object", .object fields])
  | tuple {elements : List Json} (each : ∀ j ∈ elements, IsNotation j) :
      IsNotation (.array [.string "tuple", .array elements])

mutual

theorem isNotation_toJson : ∀ type : AttributeType, IsNotation type.toJson
  | string => .string
  | number => .number
  | bool => .bool
  | dynamic => .dynamic
  | list element => .list (isNotation_toJson element)
  | set element => .set (isNotation_toJson element)
  | map element => .map (isNotation_toJson element)
  | object fields => .object (isNotation_fieldsToJson fields)
  | tuple types => .tuple (isNotation_elementsToJson types)

theorem isNotation_fieldsToJson : ∀ fields : List (String × AttributeType),
    ∀ f ∈ fieldsToJson fields, IsNotation f.2
  | [] => fun _ hf => absurd hf List.not_mem_nil
  | (_, type) :: fields =>
    List.forall_mem_cons.2 ⟨isNotation_toJson type, isNotation_fieldsToJson fields⟩

theorem isNotation_elementsToJson : ∀ types : List AttributeType,
    ∀ j ∈ elementsToJson types, IsNotation j
  | [] => fun _ hj => absurd hj List.not_mem_nil
  | type :: types =>
    List.forall_mem_cons.2 ⟨isNotation_toJson type, isNotation_elementsToJson types⟩

end

theorem exists_elementsToJson {js : List Json}
    (h : ∀ j ∈ js, ∃ type : AttributeType, type.toJson = j) :
    ∃ types, elementsToJson types = js := by
  induction js with
  | nil => exact ⟨[], rfl⟩
  | cons j js ih =>
    obtain ⟨⟨type, htype⟩, hjs⟩ := List.forall_mem_cons.1 h
    obtain ⟨types, htypes⟩ := ih hjs
    exact ⟨type :: types, by rw [elementsToJson, htype, htypes]⟩

theorem exists_fieldsToJson {js : List (String × Json)}
    (h : ∀ f ∈ js, ∃ type : AttributeType, type.toJson = f.2) :
    ∃ fields, fieldsToJson fields = js := by
  induction js with
  | nil => exact ⟨[], rfl⟩
  | cons f js ih =>
    obtain ⟨⟨type, htype⟩, hjs⟩ := List.forall_mem_cons.1 h
    obtain ⟨fields, hfields⟩ := ih hjs
    exact ⟨(f.1, type) :: fields, by rw [fieldsToJson, htype, hfields]⟩

theorem exists_toJson {j : Json} (h : IsNotation j) : ∃ type : AttributeType, type.toJson = j := by
  induction h with
  | string => exact ⟨.string, rfl⟩
  | number => exact ⟨.number, rfl⟩
  | bool => exact ⟨.bool, rfl⟩
  | dynamic => exact ⟨.dynamic, rfl⟩
  | list _ ih =>
    obtain ⟨element, rfl⟩ := ih
    exact ⟨.list element, rfl⟩
  | set _ ih =>
    obtain ⟨element, rfl⟩ := ih
    exact ⟨.set element, rfl⟩
  | map _ ih =>
    obtain ⟨element, rfl⟩ := ih
    exact ⟨.map element, rfl⟩
  | object _ ih =>
    obtain ⟨fields, rfl⟩ := exists_fieldsToJson ih
    exact ⟨.object fields, rfl⟩
  | tuple _ ih =>
    obtain ⟨types, rfl⟩ := exists_elementsToJson ih
    exact ⟨.tuple types, rfl⟩

theorem isNotation_iff {j : Json} : (∃ type, ofJson j = .ok type) ↔ IsNotation j := by
  constructor
  · rintro ⟨type, h⟩
    rw [ofJson_eq_ok_iff.1 h]
    exact isNotation_toJson type
  · intro h
    obtain ⟨type, rfl⟩ := exists_toJson h
    exact ⟨type, ofJson_toJson type⟩

/-- The part stands where the grammar has a type: it is the document, or it stands in a type of
the document. -/
inductive StandsIn (part : Json) : Json → Prop
  | self : StandsIn part part
  | element {kind : String} {inner : Json} (collection : kind ∈ ["list", "set", "map"])
      (inside : StandsIn part inner) : StandsIn part (.array [.string kind, inner])
  | field {fields : List (String × Json)} {f : String × Json} (mem : f ∈ fields)
      (inside : StandsIn part f.2) : StandsIn part (.array [.string "object", .object fields])
  | item {elements : List Json} {j : Json} (mem : j ∈ elements) (inside : StandsIn part j) :
      StandsIn part (.array [.string "tuple", .array elements])

theorem IsNotation.fields {kind : String} {fields : List (String × Json)}
    (h : IsNotation (.array [.string kind, .object fields])) (hkind : kind = "object") :
    ∀ f ∈ fields, IsNotation f.2 := by
  cases h with
  | object each => exact each
  | _ => simp at hkind

theorem IsNotation.elements {kind : String} {elements : List Json}
    (h : IsNotation (.array [.string kind, .array elements])) (hkind : kind = "tuple") :
    ∀ j ∈ elements, IsNotation j := by
  cases h with
  | tuple each => exact each
  | _ => simp at hkind

theorem IsNotation.of_standsIn {part j : Json} (h : IsNotation j) (hp : StandsIn part j) :
    IsNotation part := by
  induction hp with
  | self => exact h
  | element collection _ ih =>
    cases h with
    | list element => exact ih element
    | set element => exact ih element
    | map element => exact ih element
    | object _ => exact absurd collection (by decide)
    | tuple _ => exact absurd collection (by decide)
  | field mem _ ih => exact ih (h.fields rfl _ mem)
  | item mem _ ih => exact ih (h.elements rfl _ mem)

/-! ### Names in order -/

/-- The fields of every object type stand in ascending order of their names, and so no name
stands twice. -/
def NamesAscend (type : AttributeType) : Prop :=
  type.EachObject fun fields => fields.Pairwise fun f g => f.1 < g.1

theorem pairwise_fieldsToJson {fields : List (String × AttributeType)} :
    (fieldsToJson fields).Pairwise (fun f g => f.1 < g.1) ↔
      fields.Pairwise fun f g => f.1 < g.1 := by
  rw [fieldsToJson_eq_map, List.pairwise_map]

theorem ordered_pair {kind : String} {inner : Json} :
    (Json.array [.string kind, inner]).Ordered ↔ inner.Ordered := by
  constructor
  · intro h
    cases h with | array each => exact each inner (by simp)
  · intro h
    exact .array (List.forall_mem_cons.2 ⟨.string kind, List.forall_mem_singleton.2 h⟩)

theorem ordered_toJson {type : AttributeType} (h : type.NamesAscend) : type.toJson.Ordered := by
  induction h with
  | string => exact .string _
  | number => exact .string _
  | bool => exact .string _
  | dynamic => exact .string _
  | list _ ih => exact ordered_pair.2 ih
  | set _ ih => exact ordered_pair.2 ih
  | map _ ih => exact ordered_pair.2 ih
  | object ascending _ ih =>
    refine ordered_pair.2 (.object (pairwise_fieldsToJson.2 ascending) ?_)
    rw [fieldsToJson_eq_map]
    exact List.forall_mem_map.2 ih
  | tuple _ ih =>
    refine ordered_pair.2 (.array ?_)
    rw [elementsToJson_eq_map]
    exact List.forall_mem_map.2 ih

mutual

theorem namesAscend_of_ordered : ∀ type : AttributeType, type.toJson.Ordered → type.NamesAscend
  | string, _ => .string
  | number, _ => .number
  | bool, _ => .bool
  | dynamic, _ => .dynamic
  | list element, h => .list (namesAscend_of_ordered element (ordered_pair.1 h))
  | set element, h => .set (namesAscend_of_ordered element (ordered_pair.1 h))
  | map element, h => .map (namesAscend_of_ordered element (ordered_pair.1 h))
  | object fields, h => by
    cases ordered_pair.1 h with
    | object ascending each =>
      exact .object (pairwise_fieldsToJson.1 ascending) (namesAscend_of_fields fields each)
  | tuple types, h => by
    cases ordered_pair.1 h with
    | array each => exact .tuple (namesAscend_of_elements types each)

theorem namesAscend_of_fields : ∀ fields : List (String × AttributeType),
    (∀ f ∈ fieldsToJson fields, f.2.Ordered) → ∀ f ∈ fields, f.2.NamesAscend
  | [], _ => fun _ hf => absurd hf List.not_mem_nil
  | (_, type) :: fields, h =>
    List.forall_mem_cons.2 ⟨namesAscend_of_ordered type (List.forall_mem_cons.1 h).1,
      namesAscend_of_fields fields (List.forall_mem_cons.1 h).2⟩

theorem namesAscend_of_elements : ∀ types : List AttributeType,
    (∀ j ∈ elementsToJson types, j.Ordered) → ∀ type ∈ types, type.NamesAscend
  | [], _ => fun _ htype => absurd htype List.not_mem_nil
  | type :: types, h =>
    List.forall_mem_cons.2 ⟨namesAscend_of_ordered type (List.forall_mem_cons.1 h).1,
      namesAscend_of_elements types (List.forall_mem_cons.1 h).2⟩

end

theorem namesAscend_of_ofJson {j : Json} {type : AttributeType} (hj : j.Ordered)
    (h : ofJson j = .ok type) : type.NamesAscend :=
  namesAscend_of_ordered type (ofJson_eq_ok_iff.1 h ▸ hj)

/-- Reading accepts the documents of the grammar and no other, whatever it is that is malformed and
however deep it stands. It is a bijection from those that list their members by name, as documents
do, to the types that list the fields of their objects by name. -/
theorem ofJson_bijOn :
    (∀ j, (∃ type, ofJson j = .ok type) ↔ IsNotation j) ∧
      (∀ part j, StandsIn part j → ¬ IsNotation part → ∃ e, ofJson j = .error e) ∧
      Set.BijOn ofJson {j | j.Ordered ∧ IsNotation j} (Except.ok '' {type | type.NamesAscend}) := by
  refine ⟨fun _ => isNotation_iff, ?_, ?_, ?_, ?_⟩
  · intro part j hpart hmalformed
    cases hj : ofJson j with
    | error e => exact ⟨e, rfl⟩
    | ok type => exact absurd ((isNotation_iff.1 ⟨type, hj⟩).of_standsIn hpart) hmalformed
  · rintro j ⟨hordered, hj⟩
    obtain ⟨type, htype⟩ := isNotation_iff.2 hj
    exact ⟨type, namesAscend_of_ofJson hordered htype, htype.symm⟩
  · rintro j ⟨_, hj⟩ j' _ hsame
    obtain ⟨type, htype⟩ := isNotation_iff.2 hj
    exact (ofJson_eq_ok_iff.1 htype).trans (ofJson_eq_ok_iff.1 (hsame ▸ htype)).symm
  · rintro _ ⟨type, htype, rfl⟩
    exact ⟨type.toJson, ⟨ordered_toJson htype, isNotation_toJson type⟩, ofJson_toJson type⟩

/-- A word that names no collection, inside the list of an object's field; the same document with
`list` for the word. -/
theorem ofJson_bijOn_field :
    let part (word : String) : Json := .array [.string word, .string "string"]
    let document (word : String) : Json :=
      .array [.string "object", .object [("a", .array [.string "list", part word])]]
    StandsIn (part "bag") (document "bag") ∧ ¬ IsNotation (part "bag") ∧
      (∃ e, ofJson (document "bag") = .error e) ∧
        (document "list").Ordered ∧ IsNotation (document "list") ∧
          (∃ type, type.NamesAscend ∧ ofJson (document "list") = .ok type) ∧
            ∀ j : Json, j.Ordered → IsNotation j → ofJson j = ofJson (document "list") →
              j = document "list" := by
  intro part document
  have hpart : StandsIn (part "bag") (document "bag") :=
    .field (List.mem_singleton_self _) (.element (by decide) .self)
  have hmalformed : ¬ IsNotation (part "bag") := fun h => by
    obtain ⟨type, htype⟩ := isNotation_iff.2 h
    cases htype
  have hordered : (document "list").Ordered :=
    ordered_pair.2 (.object (List.pairwise_singleton _ _)
      (List.forall_mem_singleton.2 (ordered_pair.2 (ordered_pair.2 (.string _)))))
  obtain ⟨haccepts, hrejects, hmaps, hinj, _⟩ := ofJson_bijOn
  have hgood : IsNotation (document "list") :=
    (haccepts _).1 ⟨object [("a", list (list string))], rfl⟩
  obtain ⟨type, htype, hread⟩ := hmaps ⟨hordered, hgood⟩
  exact ⟨hpart, hmalformed, hrejects _ _ hpart hmalformed, hordered, hgood,
    ⟨type, htype, hread.symm⟩, fun _ hj hnotation hsame =>
      hinj ⟨hj, hnotation⟩ ⟨hordered, hgood⟩ hsame⟩

end StateText.AttributeType
