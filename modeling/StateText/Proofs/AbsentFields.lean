import StateText.Proofs.Arranged
import StateText.Proofs.NormalText
import StateText.Proofs.Parts
import StateText.Proofs.StoredAttributes

/-!
# Absent fields

A field that is null and a field that is missing are the same. `Agree` relates two documents that
differ, below a type, in null fields only: fields that the type declares, or any fields where it
takes every shape. `block_of_agree` says that they are decoded alike and make the same block.
-/

namespace StateText

namespace Entries

variable {κ α β : Type} [DecidableEq κ]

theorem put_map (f : α → β) (key : κ) (value : α) (es : Entries κ α) :
    put key (f value) (es.map fun e => (e.1, f e.2)) =
      (put key value es).map fun e => (e.1, f e.2) := by
  induction es with
  | nil => rfl
  | cons e es ih =>
    rw [List.map_cons, put_cons, ih, put_cons]
    split_ifs <;> rfl

theorem ofPairs_map (f : α → β) (pairs : List (κ × α)) :
    ofPairs (pairs.map fun e => (e.1, f e.2)) = (ofPairs pairs).map fun e => (e.1, f e.2) := by
  have hput (es : Entries κ α) :
      (pairs.map fun e => (e.1, f e.2)).foldl (fun es p => put p.1 p.2 es)
          (es.map fun e => (e.1, f e.2)) =
        (pairs.foldl (fun es p => put p.1 p.2 es) es).map fun e => (e.1, f e.2) := by
    induction pairs generalizing es with
    | nil => rfl
    | cons p pairs ih =>
      rw [List.map_cons, List.foldl_cons, List.foldl_cons, ← ih]
      dsimp only
      rw [put_map]
  exact hput []

end Entries

/-! ### Documents without null fields -/

namespace Json

mutual

/-- The document without the null members of its objects, at any depth. -/
def pruned : Json → Json
  | array items => array (prunedItems items)
  | object fields => object (prunedFields fields)
  | j => j

def prunedItems : List Json → List Json
  | [] => []
  | item :: items => pruned item :: prunedItems items

def prunedFields : List (String × Json) → List (String × Json)
  | [] => []
  | (name, j) :: fields =>
    if j.isNull then prunedFields fields else (name, pruned j) :: prunedFields fields

end

theorem isNull_pruned (j : Json) : j.pruned.isNull = j.isNull := by
  cases j <;> rfl

end Json

namespace Value

theorem isNull_ofJson (j : Json) : (ofJson j).isNull = j.isNull := by
  cases j <;> rfl

mutual

theorem normal_ofJson_pruned : ∀ j : Json, (ofJson j.pruned).normal = (ofJson j).normal
  | .null => rfl
  | .bool _ => rfl
  | .number _ => rfl
  | .string _ => rfl
  | .array items => by
    rw [Json.pruned, ofJson, normal, normalItems_ofItems_pruned items, ofJson, normal]
  | .object fields => by
    rw [Json.pruned, ofJson, normal, normalFields_ofFields_pruned fields, ofJson, normal]

theorem normalItems_ofItems_pruned : ∀ items : List Json,
    normalItems (ofItems (Json.prunedItems items)) = normalItems (ofItems items)
  | [] => rfl
  | item :: items => by
    rw [Json.prunedItems, ofItems, normalItems, normal_ofJson_pruned item,
      normalItems_ofItems_pruned items, ofItems, normalItems]

theorem normalFields_ofFields_pruned : ∀ fields : List (String × Json),
    normalFields (ofFields (Json.prunedFields fields)) = normalFields (ofFields fields)
  | [] => rfl
  | (name, j) :: fields => by
    have hrest := normalFields_ofFields_pruned fields
    rw [Json.prunedFields, ofFields, normalFields, isNull_ofJson]
    split_ifs with hnull
    · exact hrest
    · rw [ofFields, normalFields, isNull_ofJson, Json.isNull_pruned, if_neg hnull,
        normal_ofJson_pruned j, hrest]

end

/-! ### Normal forms of decoded objects -/

theorem isNull_of_normal_eq {v v' : Value} (h : v.normal = v'.normal) : v.isNull = v'.isNull := by
  cases v <;> cases v' <;> first | rfl | cases h

theorem chars_of_normal_eq {v v' : Value} (h : v.normal = v'.normal) (indent : Nat) :
    v.chars indent = v'.chars indent := by
  rw [← chars_normal, h, chars_normal]

theorem normalItems_congr {vs vs' : List Value} (h : vs.map normal = vs'.map normal) :
    normalItems vs = normalItems vs' := by
  rw [normalItems_eq_map, normalItems_eq_map, h]

/-- Entries with the same normal forms stand in maps and objects with the same normal form. -/
theorem normalFields_congr {fields fields' : List (String × Value)}
    (h : (fields.map fun e => (e.1, e.2.normal)) = fields'.map fun e => (e.1, e.2.normal)) :
    normalFields fields = normalFields fields' := by
  induction fields generalizing fields' with
  | nil =>
    rw [List.map_nil, eq_comm, List.map_eq_nil_iff] at h
    rw [h]
  | cons e fields ih =>
    cases fields' with
    | nil => cases h
    | cons e' fields' =>
      obtain ⟨hentry, hrest⟩ := List.cons.inj h
      obtain ⟨hname, hnormal⟩ := Prod.mk.inj hentry
      rw [normalFields, normalFields, hname, hnormal, isNull_of_normal_eq hnormal, ih hrest]

theorem normal_field_congr {pairs pairs' : List (String × Value)}
    (h : (pairs.map fun e => (e.1, e.2.normal)) = pairs'.map fun e => (e.1, e.2.normal))
    (name : String) : ((object (Entries.ofPairs pairs)).field name).normal =
      ((object (Entries.ofPairs pairs')).field name).normal := by
  have hfield (pairs : List (String × Value)) :
      ((object (Entries.ofPairs pairs)).field name).normal =
        (Entries.get? name
          (Entries.ofPairs (pairs.map fun e => (e.1, e.2.normal)))).getD .null := by
    have hget := Entries.get?_map_values name (fun _ => normal) (Entries.ofPairs pairs)
    rw [Entries.ofPairs_map, hget, field_object]
    cases Entries.get? name (Entries.ofPairs pairs) <;> rfl
  rw [hfield, hfield, h]

end Value

namespace Decode

open Value

/-- The entries of the values with names in front. -/
theorem map_zip_normal {names : List String} {vs vs' : List Value}
    (h : vs.map normal = vs'.map normal) :
    ((names.zip vs).map fun e => (e.1, e.2.normal)) =
      (names.zip vs').map fun e => (e.1, e.2.normal) := by
  have hzip (vs : List Value) : ((names.zip vs).map fun e => (e.1, e.2.normal)) =
      names.zip (vs.map normal) := List.zip_map_right.symm
  rw [hzip, hzip, h]

/-- Equal but for null fields that the type declares, or that stand where it takes any shape. A
declared field that is missing is null, and what no field declares is equal. -/
inductive Agree : AttributeType → Json → Json → Prop
  | same (type : AttributeType) (j : Json) : Agree type j j
  | dynamic {j j' : Json} (pruned : j.pruned = j'.pruned) : Agree .dynamic j j'
  | list {element : AttributeType} {js js' : List Json} (length : js.length = js'.length)
      (each : ∀ p ∈ js.zip js', Agree element p.1 p.2) :
      Agree (.list element) (.array js) (.array js')
  | set {element : AttributeType} {js js' : List Json} (length : js.length = js'.length)
      (each : ∀ p ∈ js.zip js', Agree element p.1 p.2) :
      Agree (.set element) (.array js) (.array js')
  | tuple {types : List AttributeType} {js js' : List Json} (length : js.length = js'.length)
      (each : ∀ p ∈ types.zip (js.zip js'), Agree p.1 p.2.1 p.2.2)
      (beyond : js.drop types.length = js'.drop types.length) :
      Agree (.tuple types) (.array js) (.array js')
  | map {element : AttributeType} {js js' : List (String × Json)}
      (names : Entries.keys js = Entries.keys js')
      (each : ∀ p ∈ js.zip js', Agree element p.1.2 p.2.2) :
      Agree (.map element) (.object js) (.object js')
  | object {fields : List (String × AttributeType)} {js js' : List (String × Json)}
      (undeclared : (js.filter fun e => !(Entries.keys fields).contains e.1) =
        js'.filter fun e => !(Entries.keys fields).contains e.1)
      (each : ∀ f ∈ fields, Agree f.2 ((Entries.get? f.1 js).getD .null)
        ((Entries.get? f.1 js').getD .null)) :
      Agree (.object fields) (.object js) (.object js')

/-- A declared field that is null may as well be missing. -/
theorem agree_of_absent {fields : List (String × AttributeType)} {name : String}
    (hdeclared : name ∈ Entries.keys fields) (before behind : List (String × Json))
    (habsent : name ∉ Entries.keys (before ++ behind)) :
    Agree (.object fields) (.object (before ++ (name, .null) :: behind))
      (.object (before ++ behind)) := by
  refine .object ?_ fun f _ => ?_
  · rw [List.filter_append, List.filter_append, List.filter_cons_of_neg (by simpa using hdeclared)]
  · suffices h : (Entries.get? f.1 (before ++ (name, .null) :: behind)).getD .null =
        (Entries.get? f.1 (before ++ behind)).getD .null by
      rw [h]
      exact .same _ _
    induction before with
    | nil =>
      rw [List.nil_append, List.nil_append, Entries.get?_cons]
      split_ifs with hname
      · rw [Entries.get?_eq_none_iff.2 (hname ▸ habsent)]
        rfl
      · rfl
    | cons e before ih =>
      have hrest : name ∉ Entries.keys (before ++ behind) := fun hmem =>
        habsent (List.mem_cons_of_mem _ hmem)
      rw [List.cons_append, List.cons_append, Entries.get?_cons, Entries.get?_cons]
      split_ifs
      · rfl
      · exact ih hrest

/-- Two results with one image fail alike, or succeed with one image. -/
theorem map_eq_map_iff {ε α β : Type} {x y : Except ε α} {f : α → β} : x.map f = y.map f ↔
    (∃ e, x = .error e ∧ y = .error e) ∨ ∃ a b, x = .ok a ∧ y = .ok b ∧ f a = f b := by
  cases x <;> cases y <;> simp [Except.map, eq_comm]

def Alike (p p' : Part) : Prop :=
  p.step = p'.step ∧ (fit p.type p.node).map normal = (fit p'.type p'.node).map normal

/-- Parts are decoded alike up to the first one that does not fit. -/
theorem fitParts_congr {ps ps' : List Part} (h : List.Forall₂ Alike ps ps') :
    (fitParts ps).map (List.map normal) = (fitParts ps').map (List.map normal) := by
  induction h with
  | nil => rfl
  | cons hp _ ih =>
    obtain ⟨hstep, hfit⟩ := hp
    rw [fitParts, fitParts, hstep]
    rcases map_eq_map_iff.1 hfit with ⟨e, he, he'⟩ | ⟨v, v', hv, hv', hnormal⟩
    · rw [he, he']
    · rw [hv, hv']
      rcases map_eq_map_iff.1 ih with ⟨e, he, he'⟩ | ⟨vs, vs', hvs, hvs', hnormals⟩
      · rw [he, he']
        rfl
      · rw [hvs, hvs']
        exact congrArg Except.ok (congrArg₂ List.cons hnormal hnormals)

/-- Two nodes with the same fault of their own, and with parts that are decoded alike, are not
decoded for the same reason, or they are decoded to what is assembled from values with the same
normal forms. -/
theorem fit_cases {type : AttributeType} {j j' : Json} (hm : misfit? type j = misfit? type j')
    (hparts : List.Forall₂ Alike (parts type j) (parts type j')) :
    (∃ e, fit type j = .error e ∧ fit type j' = .error e) ∨
      ∃ vs vs', fit type j = .ok (assemble type j vs) ∧
        fit type j' = .ok (assemble type j' vs') ∧ vs.map normal = vs'.map normal := by
  rw [fit_eq, fit_eq, hm]
  cases misfit? type j' with
  | some reason => exact .inl ⟨_, rfl, rfl⟩
  | none =>
    rcases map_eq_map_iff.1 (fitParts_congr hparts) with ⟨e, he, he'⟩ | ⟨vs, vs', hvs, hvs', h⟩
    · rw [he, he']
      exact .inl ⟨e, rfl, rfl⟩
    · rw [hvs, hvs']
      exact .inr ⟨vs, vs', rfl, rfl, h⟩

theorem fit_congr {type : AttributeType} {j j' : Json} (hm : misfit? type j = misfit? type j')
    (hparts : List.Forall₂ Alike (parts type j) (parts type j'))
    (hassemble : ∀ vs vs', vs.map normal = vs'.map normal →
      (assemble type j vs).normal = (assemble type j' vs').normal) :
    (fit type j).map normal = (fit type j').map normal := by
  refine map_eq_map_iff.2 ((fit_cases hm hparts).imp_right ?_)
  rintro ⟨vs, vs', hvs, hvs', h⟩
  exact ⟨_, _, hvs, hvs', hassemble vs vs' h⟩

/-! ### The parts of documents that agree -/

theorem forall₂_zipIdx {α β : Type} {R : α → β → Prop} {as : List α} {bs : List β}
    (h : List.Forall₂ R as bs) (i : ℕ) :
    List.Forall₂ (fun p q => R p.1 q.1 ∧ p.2 = q.2) (as.zipIdx i) (bs.zipIdx i) := by
  induction h generalizing i with
  | nil => exact .nil
  | cons hab _ ih => exact .cons ⟨hab, rfl⟩ (ih (i + 1))

theorem forall₂_zip_left {α β γ : Type} {R : α → β → γ → Prop} {as : List α} {bs : List β}
    {cs : List γ} (hlength : bs.length = cs.length)
    (h : ∀ p ∈ as.zip (bs.zip cs), R p.1 p.2.1 p.2.2) :
    List.Forall₂ (fun p q => p.1 = q.1 ∧ R p.1 p.2 q.2) (as.zip bs) (as.zip cs) := by
  induction as generalizing bs cs with
  | nil => exact .nil
  | cons a as ih =>
    cases bs with
    | nil =>
      cases cs with
      | nil => exact .nil
      | cons c cs => cases hlength
    | cons b bs =>
      cases cs with
      | nil => cases hlength
      | cons c cs =>
        rw [List.zip_cons_cons, List.zip_cons_cons, List.forall_mem_cons] at h
        exact .cons ⟨rfl, h.1⟩ (ih (Nat.succ.inj hlength) h.2)

theorem undeclared?_congr {fields : List (String × AttributeType)} {js js' : List (String × Json)}
    (h : (js.filter fun e => !(Entries.keys fields).contains e.1) =
      js'.filter fun e => !(Entries.keys fields).contains e.1) :
    undeclared? fields js = undeclared? fields js' := by
  have hfirst (js : List (String × Json)) : undeclared? fields js =
      ((js.filter fun e => !(Entries.keys fields).contains e.1).head?).map Prod.fst := by
    have hkeys : Entries.keys js = js.map Prod.fst := rfl
    rw [undeclared?, hkeys, List.find?_map, List.head?_filter]
    rfl
  rw [hfirst, hfirst, h]

theorem alike_elements {element : AttributeType} {js js' : List Json}
    (length : js.length = js'.length)
    (each : ∀ p ∈ js.zip js', (fit element p.1).map normal = (fit element p.2).map normal) :
    List.Forall₂ Alike (js.zipIdx.map fun p => ⟨.index p.2, element, p.1⟩)
      (js'.zipIdx.map fun p => ⟨.index p.2, element, p.1⟩) := by
  have hpairs : List.Forall₂
      (fun j j' => (fit element j).map normal = (fit element j').map normal) js js' :=
    List.forall₂_iff_zip.2 ⟨length, fun hp => each _ hp⟩
  rw [List.forall₂_map_left_iff, List.forall₂_map_right_iff]
  exact (forall₂_zipIdx hpairs 0).imp fun p q hpq => ⟨congrArg Step.index hpq.2, hpq.1⟩

theorem alike_tuple {types : List AttributeType} {js js' : List Json}
    (length : js.length = js'.length)
    (each : ∀ p ∈ types.zip (js.zip js'),
      (fit p.1 p.2.1).map normal = (fit p.1 p.2.2).map normal) :
    List.Forall₂ Alike (parts (.tuple types) (.array js)) (parts (.tuple types) (.array js')) := by
  have hpairs := forall₂_zip_left
    (R := fun type j j' => (fit type j).map normal = (fit type j').map normal) length each
  rw [parts, parts, List.forall₂_map_left_iff, List.forall₂_map_right_iff]
  refine (forall₂_zipIdx hpairs 0).imp fun p q hpq => ?_
  obtain ⟨⟨htype, hfit⟩, hindex⟩ := hpq
  refine ⟨congrArg Step.index hindex, ?_⟩
  rw [← htype]
  exact hfit

theorem alike_members {element : AttributeType} {js js' : List (String × Json)}
    (names : Entries.keys js = Entries.keys js')
    (each : ∀ p ∈ js.zip js', (fit element p.1.2).map normal = (fit element p.2.2).map normal) :
    List.Forall₂ Alike (parts (.map element) (.object js))
      (parts (.map element) (.object js')) := by
  have hnames : List.Forall₂ (fun e e' => e.1 = e'.1) js js' := by
    have hkeys : List.Forall₂ (· = ·) (Entries.keys js) (Entries.keys js') := by
      rw [List.forall₂_eq_eq_eq]
      exact names
    rwa [Entries.keys, Entries.keys, List.forall₂_map_left_iff,
      List.forall₂_map_right_iff] at hkeys
  rw [parts, parts, List.forall₂_map_left_iff, List.forall₂_map_right_iff]
  refine List.forall₂_iff_zip.2 ⟨hnames.length_eq, fun hp => ?_⟩
  exact ⟨congrArg Step.key ((List.forall₂_iff_zip.1 hnames).2 hp), each _ hp⟩

theorem alike_fields {fields : List (String × AttributeType)} {js js' : List (String × Json)}
    (each : ∀ f ∈ fields, (fit f.2 ((Entries.get? f.1 js).getD .null)).map normal =
      (fit f.2 ((Entries.get? f.1 js').getD .null)).map normal) :
    List.Forall₂ Alike (parts (.object fields) (.object js))
      (parts (.object fields) (.object js')) := by
  rw [parts, parts, List.forall₂_map_left_iff, List.forall₂_map_right_iff, List.forall₂_same]
  exact fun f hf => ⟨rfl, each f hf⟩

/-- Documents that agree are decoded alike. -/
theorem normal_fit_congr {type : AttributeType} {j j' : Json} (h : Agree type j j') :
    (fit type j).map normal = (fit type j').map normal := by
  -- lists and maps keep their nulls, so what they are assembled from has the same normal forms one
  -- by one; only objects are written without
  induction h with
  | same type j => rfl
  | @dynamic j j' pruned =>
    rw [fit_dynamic, fit_dynamic]
    refine congrArg Except.ok ?_
    rw [← normal_ofJson_pruned, pruned, normal_ofJson_pruned]
  | @list element js js' length each ih =>
    exact fit_congr rfl (alike_elements length ih) fun vs vs' hvs =>
      congrArg Normal.sequence (normalItems_congr hvs)
  | @set element js js' length each ih =>
    exact fit_congr rfl (alike_elements length ih) fun vs vs' hvs =>
      congrArg Normal.sequence (normalItems_congr hvs)
  | @tuple types js js' length each beyond ih =>
    exact fit_congr (by rw [misfit?, misfit?, length]) (alike_tuple length ih) fun vs vs' hvs =>
      congrArg Normal.sequence (normalItems_congr hvs)
  | @map element js js' names each ih =>
    refine fit_congr rfl (alike_members names ih) fun vs vs' hvs => ?_
    change (Value.map ((Entries.keys js).zip vs)).normal =
      (Value.map ((Entries.keys js').zip vs')).normal
    rw [normal, normal, normalEntries_eq_map, normalEntries_eq_map, names, map_zip_normal hvs]
  | @object fields js js' undeclared each ih =>
    refine fit_congr (by rw [misfit?, misfit?, undeclared?_congr undeclared])
      (alike_fields ih) fun vs vs' hvs => ?_
    change (Value.object (Entries.ofPairs ((Entries.keys fields).zip vs))).normal =
      (Value.object (Entries.ofPairs ((Entries.keys fields).zip vs'))).normal
    rw [normal, normal]
    -- all declared fields are assembled, whether the document has them or not
    refine congrArg (Normal.mapping <| Entries.sorted ·) (normalFields_congr ?_)
    rw [← Entries.ofPairs_map normal, map_zip_normal hvs, Entries.ofPairs_map]

/-- The attributes of two documents that agree. -/
theorem fit_attributes {fields : List (String × AttributeType)} {j j' : Json}
    (h : Agree (.object fields) j j') :
    (∃ e, fit (.object fields) j = .error e ∧ fit (.object fields) j' = .error e) ∨
      ∃ v v', fit (.object fields) j = .ok v ∧ fit (.object fields) j' = .ok v' ∧
        ∀ name, (v.field name).normal = (v'.field name).normal := by
  cases h with
  | same =>
    cases hv : fit (.object fields) j with
    | error e => exact .inl ⟨e, rfl, rfl⟩
    | ok v => exact .inr ⟨v, v, rfl, rfl, fun _ => rfl⟩
  | object undeclared each =>
    have hparts := alike_fields fun f hf => normal_fit_congr (each f hf)
    refine (fit_cases (by rw [misfit?, misfit?, undeclared?_congr undeclared]) hparts).imp_right ?_
    rintro ⟨vs, vs', hv, hv', h⟩
    refine ⟨_, _, hv, hv', fun name => ?_⟩
    exact normal_field_congr (map_zip_normal h) name

/-- An object without fields is decoded to nulls. -/
theorem fit_empty (fields : List (String × AttributeType)) :
    ∃ v, fit (.object fields) (.object []) = .ok v ∧ ∀ name, v.field name = .null := by
  have hfields : fitFields fields [] = .ok (fields.map fun f => (f.1, .null)) := by
    induction fields with
    | nil => rfl
    | cons f fields ih =>
      rw [fitFields, Entries.get?_nil, Option.getD_none, fit_null, ih]
      rfl
  refine ⟨.object (Entries.ofPairs (fields.map fun f => (f.1, .null))), ?_, fun name => ?_⟩
  · rw [fit, hfields]
    rfl
  · have hget := Entries.get?_map_values name (fun _ _ => Value.null) (Entries.ofPairs fields)
    rw [field_object, Entries.ofPairs_map (fun _ => Value.null), hget]
    cases Entries.get? name (Entries.ofPairs fields) <;> rfl

end Decode

namespace Block

variable {schema : ResourceSchema}

/-- Attributes with the same normal forms have the same lines. -/
theorem attributeLines_congr {v v' : Value}
    (h : ∀ name, (v.field name).normal = (v'.field name).normal) :
    attributeLines schema v = attributeLines schema v' := by
  have hline (a : Attribute) :
      attributeLine a.name (v.field a.name) = attributeLine a.name (v'.field a.name) := by
    rw [attributeLine, attributeLine, Value.isNull_of_normal_eq (h a.name),
      Value.chars_of_normal_eq (h a.name)]
  simp only [attributeLines, hline]

def storing (b : Block) (text : String) : Block :=
  { b with decoded := decodeInstance Decode.decode (some b.schema) ⟨.ready, text⟩ }

theorem write_storing_congr (b : Block) {text text' : String} {v v' : Value}
    (hv : Decode.decode b.schema.objectType text = .ok v)
    (hv' : Decode.decode b.schema.objectType text' = .ok v')
    (h : ∀ name, (v.field name).normal = (v'.field name).normal)
    (style : FailureStyle) (p : Page) :
    (b.storing text).write style p = (b.storing text').write style p := by
  have hwrite {text : String} {v : Value} (hv : Decode.decode b.schema.objectType text = .ok v) :
      (b.storing text).write style p =
        (((p.write b.header).write b.opening).write (attributeLines b.schema v)).write closing := by
    rw [write, storing, decodeInstance, hv]
    rfl
  rw [hwrite hv, hwrite hv', attributeLines_congr h]

/-- Attributes that agree are decoded alike: for neither, and with the same error, or for both, and
then they write the same block. A null payload writes what an empty object writes. -/
theorem block_of_agree (b : Block) :
    (∀ {text text' : String} {j j' : Json}, Json.parse text = .ok j → Json.parse text' = .ok j' →
      Decode.Agree b.schema.objectType j j' →
        ((∃ e, Decode.decode b.schema.objectType text = .error e ∧
            Decode.decode b.schema.objectType text' = .error e) ∨
          ∃ v v', Decode.decode b.schema.objectType text = .ok v ∧
            Decode.decode b.schema.objectType text' = .ok v') ∧
        ∀ style p, (b.storing text).write style p = (b.storing text').write style p) ∧
    (∃ v v', Decode.decode b.schema.objectType "null" = .ok v ∧
      Decode.decode b.schema.objectType "\x7b\x7d" = .ok v') ∧
    ∀ style p, (b.storing "null").write style p = (b.storing "\x7b\x7d").write style p := by
  have hdecode {text : String} {j : Json} (hj : Json.parse text = .ok j) :
      Decode.decode b.schema.objectType text = Decode.fit b.schema.objectType j := by
    rw [Decode.decode, hj]
  refine ⟨fun {text text' j j'} hj hj' hagree => ?_, ?_⟩
  · rcases Decode.fit_attributes hagree with ⟨e, he, he'⟩ | ⟨v, v', hv, hv', hfield⟩
    · replace he := (hdecode hj).trans he
      replace he' := (hdecode hj').trans he'
      refine ⟨.inl ⟨e, he, he'⟩, fun style p => ?_⟩
      rw [storing, storing, decodeInstance, decodeInstance, he, he']
    · replace hv := (hdecode hj).trans hv
      replace hv' := (hdecode hj').trans hv'
      exact ⟨.inr ⟨v, v', hv, hv'⟩, b.write_storing_congr hv hv' hfield⟩
  · have hnull : Decode.decode b.schema.objectType "null" = .ok .null := by
      rw [hdecode (j := .null) rfl]
      rfl
    have hempty : Decode.decode b.schema.objectType "\x7b\x7d" =
        Decode.fit b.schema.objectType (.object []) := hdecode rfl
    obtain ⟨v, hv, hfield⟩ := Decode.fit_empty (b.schema.attributes.map fun a => (a.name, a.type))
    rw [ResourceSchema.objectType, hv] at hempty
    refine ⟨⟨_, _, hnull, hempty⟩, b.write_storing_congr hnull hempty fun name => ?_⟩
    rw [hfield name]
    rfl

/-- A null at the top, one in an object of a list, and one where any shape fits. -/
theorem block_of_agree_nested :
    let disk : AttributeType := .object [("size", .string), ("zone", .string)]
    let b : Block :=
      { address := "a.b", resource := ⟨.managed, "a", "b"⟩, tainted := false, decoded := .ok .null,
        schema := ⟨[⟨"id", .string⟩, ⟨"disks", .list disk⟩, ⟨"extra", .dynamic⟩]⟩ }
    let text := "\x7b\"disks\":[\x7b\"size\":\"s\",\"zone\":null\x7d]," ++
      "\"extra\":[\x7b\"x\":null\x7d],\"id\":null\x7d"
    let text' := "\x7b\"extra\":[\x7b\x7d],\"disks\":[\x7b\"size\":\"s\"\x7d]\x7d"
    ∃ j j', Json.parse text = .ok j ∧ Json.parse text' = .ok j' ∧
      Decode.Agree b.schema.objectType j j' ∧ j ≠ j' ∧
      ((∃ e, Decode.decode b.schema.objectType text = .error e ∧
          Decode.decode b.schema.objectType text' = .error e) ∨
        ∃ v v', Decode.decode b.schema.objectType text = .ok v ∧
          Decode.decode b.schema.objectType text' = .ok v') ∧
      ∀ style p, (b.storing text).write style p = (b.storing text').write style p := by
  intro disk b text text'
  let diskWith (fields : List (String × Json)) : Json :=
    .object (("size", .string "s") :: fields)
  let full : Json := .object [("disks", .array [diskWith [("zone", .null)]]),
    ("extra", .array [.object [("x", .null)]]), ("id", .null)]
  let short : Json :=
    .object [("disks", .array [diskWith []]), ("extra", .array [.object []])]
  have hread {text : String} {j : Json}
      (h : (Json.parse text).toOption.map (fun i => decide (i = j)) = some true) :
      Json.parse text = .ok j := by
    obtain ⟨i, hi, heq⟩ := exists_of_map_toOption h
    rw [hi, of_decide_eq_true heq]
  have hfull : Json.parse text = .ok full := hread (by decide +kernel)
  have hshort : Json.parse text' = .ok short := hread (by decide +kernel)
  have hdisk : Decode.Agree disk (diskWith [("zone", .null)]) (diskWith []) :=
    Decode.agree_of_absent (by decide) [("size", .string "s")] [] (by decide)
  have hagree : Decode.Agree b.schema.objectType full short := by
    refine .object rfl (List.forall_mem_cons.2 ⟨.same _ _, List.forall_mem_cons.2 ⟨?_, ?_⟩⟩)
    · exact .list rfl fun p hp => by rwa [List.mem_singleton.1 hp]
    · exact List.forall_mem_singleton.2 (.dynamic rfl)
  exact ⟨full, short, hfull, hshort, hagree, by decide, b.block_of_agree.1 hfull hshort hagree⟩

end Block

end StateText
