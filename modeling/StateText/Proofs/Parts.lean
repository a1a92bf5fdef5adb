import Mathlib.Data.List.Forall2
import StateText.Value.Decode

/-!
# The parts of a document

A node is decoded part by part: the elements of a list one by one, the members of a map, the
declared fields of an object. `parts` lists what lies right below a node, `misfit?` says what is
wrong with the node itself, and `fit_eq` says that decoding a node is the one after the other.
-/

namespace StateText

def AttributeType.kinds : AttributeType → List String
  | string => ["string", "number", "bool"]
  | number => ["number", "string"]
  | bool => ["bool", "string"]
  | dynamic => ["string", "number", "bool", "array", "object"]
  | list _ => ["array"]
  | set _ => ["array"]
  | tuple _ => ["array"]
  | map _ => ["object"]
  | object _ => ["object"]

inductive AttributeType.EachObject (P : List (String × AttributeType) → Prop) : AttributeType → Prop
  | string : EachObject P string
  | number : EachObject P number
  | bool : EachObject P bool
  | dynamic : EachObject P dynamic
  | list {element : AttributeType} (each : EachObject P element) : EachObject P (list element)
  | set {element : AttributeType} (each : EachObject P element) : EachObject P (set element)
  | map {element : AttributeType} (each : EachObject P element) : EachObject P (map element)
  | tuple {types : List AttributeType} (each : ∀ type ∈ types, EachObject P type) :
      EachObject P (tuple types)
  | object {fields : List (String × AttributeType)} (holds : P fields)
      (each : ∀ f ∈ fields, EachObject P f.2) : EachObject P (object fields)

/-- A node one step down a document, and the type that it is read as. -/
structure Part where
  step : Step
  type : AttributeType
  node : Json

namespace Decode

open DecodeError

/-- What lies right below a node. Nothing below a null or a node of any shape is looked at. -/
def parts : AttributeType → Json → List Part
  | .list element, .array js => js.zipIdx.map fun p => ⟨.index p.2, element, p.1⟩
  | .set element, .array js => js.zipIdx.map fun p => ⟨.index p.2, element, p.1⟩
  | .tuple types, .array js => (types.zip js).zipIdx.map fun p => ⟨.index p.2, p.1.1, p.1.2⟩
  | .map element, .object js => js.map fun e => ⟨.key e.1, element, e.2⟩
  | .object fields, .object js =>
    fields.map fun f => ⟨.field f.1, f.2, (Entries.get? f.1 js).getD .null⟩
  | _, _ => []

/-- What is wrong with a node, whatever lies below it. -/
def misfit? : AttributeType → Json → Option Reason
  | _, .null => none
  | .number, .string s => if (Number.ofText? s).isSome then none else some (.notNumber s)
  | .bool, .string s =>
    if s = "true" ∨ s = "false" then none else some (.kind .bool (.string s))
  | .tuple types, .array js =>
    if types.length = js.length then none else some (.tupleLength types.length js.length)
  | .object fields, .object js => (undeclared? fields js).map .undeclared
  | type, j => if j.kind ∈ type.kinds then none else some (.kind type j)

def assemble : AttributeType → Json → List Value → Value
  | _, .null, _ => .null
  | .dynamic, j, _ => .ofJson j
  | .string, .string s, _ => .string s
  | .string, .number n, _ => .string (String.ofList n.text)
  | .string, .bool b, _ => .string (if b then "true" else "false")
  | .number, .number n, _ => .number n
  | .number, .string s, _ => ((Number.ofText? s).map .number).getD .null
  | .bool, .bool b, _ => .bool b
  | .bool, .string s, _ => .bool (s = "true")
  | .list _, _, vs => .list vs
  | .set _, _, vs => .set vs
  | .tuple _, _, vs => .tuple vs
  | .map _, .object js, vs => .map ((Entries.keys js).zip vs)
  | .object fields, _, vs => .object (Entries.ofPairs ((Entries.keys fields).zip vs))
  | _, _, _ => .null

def fitParts : List Part → Except DecodeError (List Value)
  | [] => .ok []
  | p :: ps =>
    match fit p.type p.node with
    | .error e => .error (e.under p.step)
    | .ok v => (fitParts ps).map (v :: ·)

theorem elements_eq_fitParts (element : AttributeType) (i : Nat) (js : List Json) :
    elements (fit element) i js =
      fitParts ((js.zipIdx i).map fun p => ⟨.index p.2, element, p.1⟩) := by
  induction js generalizing i with
  | nil => rfl
  | cons j js ih =>
    rw [elements, List.zipIdx_cons, List.map_cons, fitParts, ih]
    cases fit element j <;> rfl

theorem fitTuple_eq_fitParts (types : List AttributeType) (i : Nat) (js : List Json) :
    fitTuple types i js =
      fitParts (((types.zip js).zipIdx i).map fun p => ⟨.index p.2, p.1.1, p.1.2⟩) := by
  induction types generalizing i js with
  | nil =>
    rw [fitTuple, List.zip_nil_left]
    · rfl
    · exact fun _ _ _ _ h => nomatch h
  | cons type types ih =>
    cases js with
    | nil =>
      rw [fitTuple, List.zip_nil_right]
      · rfl
      · exact fun _ _ _ _ _ h => nomatch h
    | cons j js =>
      rw [fitTuple, List.zip_cons_cons, List.zipIdx_cons, List.map_cons, fitParts]
      cases fit type j with
      | error e => rfl
      | ok v => exact congrArg (Except.map (v :: ·)) (ih (i + 1) js)

theorem map_map {ε α β γ : Type} (x : Except ε α) (f : α → β) (g : β → γ) :
    (x.map f).map g = x.map fun a => g (f a) := by
  cases x <;> rfl

theorem entries_eq_fitParts (element : AttributeType) (js : List (String × Json)) :
    entries (fit element) js =
      (fitParts (js.map fun e => ⟨.key e.1, element, e.2⟩)).map (Entries.keys js).zip := by
  induction js with
  | nil => rfl
  | cons e js ih =>
    rw [entries, List.map_cons, fitParts, ih]
    cases fit element e.2 with
    | error d => rfl
    | ok v =>
      dsimp only
      rw [map_map, map_map]
      rfl

theorem fitFields_eq_fitParts (fields : List (String × AttributeType))
    (js : List (String × Json)) :
    fitFields fields js =
      (fitParts (fields.map fun f => ⟨.field f.1, f.2, (Entries.get? f.1 js).getD .null⟩)).map
        (Entries.keys fields).zip := by
  induction fields with
  | nil => rfl
  | cons f fields ih =>
    rw [fitFields, List.map_cons, fitParts, ih]
    cases fit f.2 ((Entries.get? f.1 js).getD .null) with
    | error d => rfl
    | ok v =>
      dsimp only
      rw [map_map, map_map]
      rfl

section Equation

attribute [local simp] fit misfit? parts assemble fitParts root AttributeType.kinds Json.kind
  Except.map

/-- A node is decoded if it is no misfit itself and all its parts are decoded. -/
theorem fit_eq (type : AttributeType) (j : Json) :
    fit type j =
      match misfit? type j with
      | some reason => .error (.root reason)
      | none => (fitParts (parts type j)).map (assemble type j) := by
  cases type with
  | string => cases j <;> simp
  | number =>
    cases j with
    | string s => cases h : Number.ofText? s <;> simp [h]
    | _ => simp
  | bool =>
    cases j with
    | string s =>
      by_cases ht : s = "true"
      · simp [ht]
      · by_cases hf : s = "false" <;> simp [ht, hf]
    | _ => simp
  | dynamic => cases j <;> simp
  | list element =>
    cases j with
    | array js =>
      rw [fit, elements_eq_fitParts]
      rfl
    | _ => simp
  | set element =>
    cases j with
    | array js =>
      rw [fit, elements_eq_fitParts]
      rfl
    | _ => simp
  | tuple types =>
    cases j with
    | array js =>
      rw [fit, fitTuple_eq_fitParts, misfit?]
      by_cases hl : types.length = js.length
      · rw [if_pos hl, if_pos hl]
        rfl
      · rw [if_neg hl, if_neg hl]
    | _ => simp
  | map element =>
    cases j with
    | object js =>
      rw [fit, entries_eq_fitParts, map_map]
      rfl
    | _ => simp
  | object fields =>
    cases j with
    | object js =>
      rw [fit, fitFields_eq_fitParts, map_map, misfit?]
      cases undeclared? fields js <;> rfl
    | _ => simp

end Equation

theorem fit_null (type : AttributeType) : fit type .null = .ok .null := by
  cases type <;> rfl

theorem fit_dynamic (j : Json) : fit .dynamic j = .ok (Value.ofJson j) := by
  cases j <;> rfl

theorem fitParts_eq_ok {ps : List Part} {vs : List Value} (h : fitParts ps = .ok vs) :
    List.Forall₂ (fun p v => fit p.type p.node = .ok v) ps vs := by
  induction ps generalizing vs with
  | nil =>
    cases h
    exact .nil
  | cons p ps ih =>
    rw [fitParts] at h
    split at h
    · cases h
    next v hv =>
      cases hrest : fitParts ps with
      | error e =>
        rw [hrest] at h
        cases h
      | ok us =>
        rw [hrest] at h
        cases h
        exact .cons hv (ih hrest)

/-- What a decoded value is made of. -/
theorem fit_eq_ok {type : AttributeType} {j : Json} {v : Value} (h : fit type j = .ok v) :
    misfit? type j = none ∧ ∃ vs, v = assemble type j vs ∧
      List.Forall₂ (fun p v => fit p.type p.node = .ok v) (parts type j) vs := by
  rw [fit_eq] at h
  cases hm : misfit? type j with
  | some reason =>
    rw [hm] at h
    cases h
  | none =>
    rw [hm] at h
    cases hps : fitParts (parts type j) with
    | error e =>
      rw [hps] at h
      cases h
    | ok vs =>
      rw [hps] at h
      exact ⟨rfl, vs, (Except.ok.inj h).symm, fitParts_eq_ok hps⟩

theorem fitParts_of_forall₂ {ps : List Part} {vs : List Value}
    (h : List.Forall₂ (fun p v => fit p.type p.node = .ok v) ps vs) : fitParts ps = .ok vs := by
  induction h with
  | nil => rfl
  | cons hp _ ih =>
    rw [fitParts, hp, ih]
    rfl

theorem fit_eq_assemble {type : AttributeType} {j : Json} {vs : List Value}
    (hm : misfit? type j = none)
    (h : List.Forall₂ (fun p v => fit p.type p.node = .ok v) (parts type j) vs) :
    fit type j = .ok (assemble type j vs) := by
  rw [fit_eq, hm, fitParts_of_forall₂ h]
  rfl

inductive IsPart : AttributeType → Json → Part → Prop
  | list {element : AttributeType} {js : List Json} {i : Nat} {node : Json} (mem : node ∈ js) :
      IsPart (.list element) (.array js) ⟨.index i, element, node⟩
  | set {element : AttributeType} {js : List Json} {i : Nat} {node : Json} (mem : node ∈ js) :
      IsPart (.set element) (.array js) ⟨.index i, element, node⟩
  | tuple {types : List AttributeType} {js : List Json} {i : Nat} {type : AttributeType}
      {node : Json} (declared : type ∈ types) (mem : node ∈ js) :
      IsPart (.tuple types) (.array js) ⟨.index i, type, node⟩
  | map {element : AttributeType} {js : List (String × Json)} {e : String × Json} (mem : e ∈ js) :
      IsPart (.map element) (.object js) ⟨.key e.1, element, e.2⟩
  | object {fields : List (String × AttributeType)} {js : List (String × Json)}
      {f : String × AttributeType} (declared : f ∈ fields) :
      IsPart (.object fields) (.object js) ⟨.field f.1, f.2, (Entries.get? f.1 js).getD .null⟩

theorem isPart_of_mem_parts {type : AttributeType} {j : Json} {p : Part} (h : p ∈ parts type j) :
    IsPart type j p := by
  unfold parts at h
  split at h
  · obtain ⟨q, hq, rfl⟩ := List.mem_map.1 h
    exact .list (List.fst_mem_of_mem_zipIdx hq)
  · obtain ⟨q, hq, rfl⟩ := List.mem_map.1 h
    exact .set (List.fst_mem_of_mem_zipIdx hq)
  · obtain ⟨q, hq, rfl⟩ := List.mem_map.1 h
    obtain ⟨hdeclared, hmem⟩ := List.of_mem_zip (List.fst_mem_of_mem_zipIdx hq)
    exact .tuple hdeclared hmem
  · obtain ⟨e, he, rfl⟩ := List.mem_map.1 h
    exact .map he
  · obtain ⟨f, hf, rfl⟩ := List.mem_map.1 h
    exact .object hf
  · exact absurd h List.not_mem_nil

/-- The type of a part is a part of the type. -/
theorem sizeOf_lt_of_mem_parts {type : AttributeType} {j : Json} {p : Part}
    (h : p ∈ parts type j) : sizeOf p.type < sizeOf type := by
  cases isPart_of_mem_parts h with
  | list => simp
  | set => simp
  | map => simp
  | tuple declared _ =>
    have hlt := List.sizeOf_lt_of_mem declared
    simp only [AttributeType.tuple.sizeOf_spec]
    omega
  | @object fields _ f declared =>
    have hlt := List.sizeOf_lt_of_mem declared
    have hfield : sizeOf f = 1 + sizeOf f.1 + sizeOf f.2 := by
      cases f
      rfl
    simp only [AttributeType.object.sizeOf_spec]
    omega

theorem eachObject_of_mem_parts {P : List (String × AttributeType) → Prop} {type : AttributeType}
    {j : Json} {p : Part} (ht : type.EachObject P) (hp : p ∈ parts type j) :
    p.type.EachObject P := by
  cases isPart_of_mem_parts hp with
  | list => cases ht with | list each => exact each
  | set => cases ht with | set each => exact each
  | map => cases ht with | map each => exact each
  | tuple declared _ => cases ht with | tuple each => exact each _ declared
  | object declared => cases ht with | object _ each => exact each _ declared

/-- Induction over a document and its type together: from the parts of a node to the node. -/
theorem parts_induction {P : AttributeType → Json → Prop}
    (step : ∀ type j, (∀ p ∈ parts type j, P p.type p.node) → P type j) (type : AttributeType)
    (j : Json) : P type j :=
  step type j fun p _ => parts_induction step p.type p.node
termination_by sizeOf type
decreasing_by exact sizeOf_lt_of_mem_parts ‹_›

end Decode

end StateText
