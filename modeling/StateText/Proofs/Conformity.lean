import StateText.Proofs.Parts

/-!
# Values of a type

`HasType` says what a value of a type is, and `Mirrors` that a value holds what a document says,
node for node: elements in their order, members under their names, scalars as they stand or
converted. `fit_sound` concludes both of every value that a document is decoded to.
-/

namespace StateText

theorem Entries.keys_zip_keys {κ α β : Type} {es : Entries κ α} {bs : List β}
    (h : es.length = bs.length) : keys ((keys es).zip bs) = keys es := by
  have hle : (keys es).length ≤ bs.length := Nat.le_of_eq (by rw [keys, List.length_map, h])
  exact List.map_fst_zip hle

/-- Under different keys, each entry is found with what it is related to. -/
theorem Entries.get?_of_forall₂ {κ α β : Type} [DecidableEq κ] {S : κ × α → β → Prop}
    {es : Entries κ α} {bs : List β} (hn : (keys es).Nodup) (h : List.Forall₂ S es bs) :
    ∀ e ∈ es, ∃ b, get? e.1 ((keys es).zip bs) = some b ∧ S e b := by
  induction h with
  | nil => exact fun e he => absurd he List.not_mem_nil
  | @cons d b es bs hd _ ih =>
    obtain ⟨hnotin, hrest⟩ := List.nodup_cons.1 hn
    intro e he
    rw [keys_cons, List.zip_cons_cons, get?_cons]
    rcases List.mem_cons.1 he with rfl | he
    · exact ⟨b, if_pos rfl, hd⟩
    · have hne : d.1 ≠ e.1 := fun heq => hnotin (heq ▸ List.mem_map_of_mem he)
      rw [if_neg hne]
      exact ih hrest e he

def AttributeType.DeclaresOnce (type : AttributeType) : Prop :=
  type.EachObject fun fields => (Entries.keys fields).Nodup

/-- The value has the type. A null has every type. -/
inductive HasType : AttributeType → Value → Prop
  | null (type : AttributeType) : HasType type .null
  | string (s : String) : HasType .string (.string s)
  | number (n : Number) : HasType .number (.number n)
  | bool (b : Bool) : HasType .bool (.bool b)
  | dynamic (v : Value) : HasType .dynamic v
  | list {element : AttributeType} {items : List Value} (each : ∀ v ∈ items, HasType element v) :
      HasType (.list element) (.list items)
  | set {element : AttributeType} {items : List Value} (each : ∀ v ∈ items, HasType element v) :
      HasType (.set element) (.set items)
  | tuple {types : List AttributeType} {items : List Value}
      (each : List.Forall₂ HasType types items) : HasType (.tuple types) (.tuple items)
  | map {element : AttributeType} {entries : List (String × Value)}
      (each : ∀ e ∈ entries, HasType element e.2) : HasType (.map element) (.map entries)
  | object {fields : List (String × AttributeType)} {values : List (String × Value)}
      (names : Entries.keys values = Entries.keys fields)
      (each : ∀ f ∈ fields, HasType f.2 ((Value.object values).field f.1)) :
      HasType (.object fields) (.object values)

/-- The value holds what the document says, as the type asks for it. -/
inductive Mirrors : AttributeType → Json → Value → Prop
  | null (type : AttributeType) : Mirrors type .null .null
  /-- A node of any shape is taken as it is. -/
  | dynamic (j : Json) : Mirrors .dynamic j (.ofJson j)
  | string (s : String) : Mirrors .string (.string s) (.string s)
  | numberText (n : Number) : Mirrors .string (.number n) (.string (String.ofList n.text))
  | boolText (b : Bool) : Mirrors .string (.bool b) (.string (if b then "true" else "false"))
  | number (n : Number) : Mirrors .number (.number n) (.number n)
  | numeral {s : String} {n : Number} (spelled : Number.ofText? s = some n) :
      Mirrors .number (.string s) (.number n)
  | bool (b : Bool) : Mirrors .bool (.bool b) (.bool b)
  | boolWord (b : Bool) : Mirrors .bool (.string (if b then "true" else "false")) (.bool b)
  | list {element : AttributeType} {js : List Json} {items : List Value}
      (length : js.length = items.length) (each : ∀ p ∈ js.zip items, Mirrors element p.1 p.2) :
      Mirrors (.list element) (.array js) (.list items)
  | set {element : AttributeType} {js : List Json} {items : List Value}
      (length : js.length = items.length) (each : ∀ p ∈ js.zip items, Mirrors element p.1 p.2) :
      Mirrors (.set element) (.array js) (.set items)
  | tuple {types : List AttributeType} {js : List Json} {items : List Value}
      (declared : types.length = js.length) (length : js.length = items.length)
      (each : ∀ p ∈ types.zip (js.zip items), Mirrors p.1 p.2.1 p.2.2) :
      Mirrors (.tuple types) (.array js) (.tuple items)
  | map {element : AttributeType} {js : List (String × Json)} {entries : List (String × Value)}
      (names : Entries.keys entries = Entries.keys js)
      (each : ∀ p ∈ js.zip entries, Mirrors element p.1.2 p.2.2) :
      Mirrors (.map element) (.object js) (.map entries)
  /-- A declared field is null where the document has nothing, and the document has nothing else. -/
  | object {fields : List (String × AttributeType)} {js : List (String × Json)}
      {values : List (String × Value)}
      (covered : ∀ name ∈ Entries.keys js, name ∈ Entries.keys fields)
      (each : ∀ f ∈ fields, Mirrors f.2 ((Entries.get? f.1 js).getD .null)
        ((Value.object values).field f.1)) :
      Mirrors (.object fields) (.object js) (.object values)

namespace Decode

/-- The parts of an array are its elements, with their places. -/
theorem forall₂_of_indexed {α : Type} {R : Part → Value → Prop} {f : α × Nat → Part}
    {as : List α} {vs : List Value} (h : List.Forall₂ R (as.zipIdx.map f) vs) :
    List.Forall₂ (fun a v => ∃ i, R (f (a, i)) v) as vs := by
  have hfst : List.Forall₂ (fun a v => ∃ i, R (f (a, i)) v) (as.zipIdx.map Prod.fst) vs := by
    rw [List.forall₂_map_left_iff] at h ⊢
    exact h.imp fun p v hp => ⟨p.2, hp⟩
  rwa [List.zipIdx_map_fst] at hfst

theorem forall_of_forall₂ {α β : Type} {R : α → β → Prop} {P : β → Prop} {as : List α}
    {bs : List β} (h : List.Forall₂ R as bs) (hP : ∀ a b, R a b → P b) : ∀ b ∈ bs, P b := by
  induction h with
  | nil => exact fun b hb => absurd hb List.not_mem_nil
  | cons hab _ ih => exact List.forall_mem_cons.2 ⟨hP _ _ hab, ih⟩

theorem forall_zip_of_forall₂ {α β : Type} {R : α → β → Prop} {as : List α} {bs : List β}
    (h : List.Forall₂ R as bs) : ∀ p ∈ as.zip bs, R p.1 p.2 :=
  fun _ hp => (List.forall₂_iff_zip.1 h).2 hp

/-- The entries of a map stand where the members of the document do. -/
theorem forall₂_zip_keys {R : Json → Value → Prop} {js : List (String × Json)} {vs : List Value}
    (h : List.Forall₂ (fun e v => R e.2 v) js vs) :
    List.Forall₂ (fun e d => e.1 = d.1 ∧ R e.2 d.2) js ((Entries.keys js).zip vs) := by
  induction h with
  | nil => exact .nil
  | cons he _ ih => exact .cons ⟨rfl, he⟩ ih

theorem undeclared?_eq_none_iff {fields : List (String × AttributeType)}
    {js : List (String × Json)} :
    undeclared? fields js = none ↔ ∀ name ∈ Entries.keys js, name ∈ Entries.keys fields := by
  simp [undeclared?, List.find?_eq_none]

def Conforming (p : Part) (v : Value) : Prop := HasType p.type v ∧ Mirrors p.type p.node v

theorem conforming_array {element : AttributeType} {js : List Json} {vs : List Value}
    (h : List.Forall₂ Conforming (js.zipIdx.map fun p => ⟨.index p.2, element, p.1⟩) vs) :
    (∀ v ∈ vs, HasType element v) ∧ js.length = vs.length ∧
      ∀ p ∈ js.zip vs, Mirrors element p.1 p.2 := by
  have hitems : List.Forall₂ (fun j v => HasType element v ∧ Mirrors element j v) js vs :=
    (forall₂_of_indexed h).imp fun _ _ ⟨_, hv⟩ => hv
  exact ⟨forall_of_forall₂ hitems fun _ _ hv => hv.1, hitems.length_eq,
    fun p hp => (forall_zip_of_forall₂ hitems p hp).2⟩

theorem conforming_tuple {types : List AttributeType} {js : List Json} {vs : List Value}
    (hlength : types.length = js.length)
    (h : List.Forall₂ Conforming
      ((types.zip js).zipIdx.map fun p => ⟨.index p.2, p.1.1, p.1.2⟩) vs) :
    List.Forall₂ HasType types vs ∧ js.length = vs.length ∧
      ∀ p ∈ types.zip (js.zip vs), Mirrors p.1 p.2.1 p.2.2 := by
  have hitems : List.Forall₂ (fun q v => HasType q.1 v ∧ Mirrors q.1 q.2 v) (types.zip js) vs :=
    (forall₂_of_indexed h).imp fun _ _ ⟨_, hv⟩ => hv
  clear h
  induction types generalizing js vs with
  | nil =>
    cases js with
    | nil =>
      cases hitems
      simp
    | cons j js => cases hlength
  | cons type types ih =>
    cases js with
    | nil => cases hlength
    | cons j js =>
      cases hitems with
      | cons hv hrest =>
        obtain ⟨htypes, hl, hmirrors⟩ := ih (Nat.succ.inj hlength) hrest
        exact ⟨.cons hv.1 htypes, congrArg Nat.succ hl,
          List.forall_mem_cons.2 ⟨hv.2, hmirrors⟩⟩

theorem conforming_map {element : AttributeType} {js : List (String × Json)} {vs : List Value}
    (h : List.Forall₂ Conforming (js.map fun e => ⟨.key e.1, element, e.2⟩) vs) :
    (∀ d ∈ (Entries.keys js).zip vs, HasType element d.2) ∧
      Entries.keys ((Entries.keys js).zip vs) = Entries.keys js ∧
      ∀ p ∈ js.zip ((Entries.keys js).zip vs), Mirrors element p.1.2 p.2.2 := by
  rw [List.forall₂_map_left_iff] at h
  have hitems := forall₂_zip_keys (R := fun j v => HasType element v ∧ Mirrors element j v) h
  exact ⟨forall_of_forall₂ hitems fun _ _ hd => hd.2.1, Entries.keys_zip_keys h.length_eq,
    fun p hp => (forall_zip_of_forall₂ hitems p hp).2.2⟩

theorem conforming_object {fields : List (String × AttributeType)} {js : List (String × Json)}
    {vs : List Value} (hn : (Entries.keys fields).Nodup)
    (h : List.Forall₂ Conforming
      (fields.map fun f => ⟨.field f.1, f.2, (Entries.get? f.1 js).getD .null⟩) vs) :
    let values := Entries.ofPairs ((Entries.keys fields).zip vs)
    Entries.keys values = Entries.keys fields ∧ ∀ f ∈ fields,
      HasType f.2 ((Value.object values).field f.1) ∧
        Mirrors f.2 ((Entries.get? f.1 js).getD .null) ((Value.object values).field f.1) := by
  rw [List.forall₂_map_left_iff] at h
  have hkeys := Entries.keys_zip_keys h.length_eq
  intro values
  have hvalues : values = (Entries.keys fields).zip vs :=
    Entries.ofPairs_eq_self (by rwa [hkeys])
  rw [hvalues]
  refine ⟨hkeys, fun f hf => ?_⟩
  obtain ⟨v, hv, hconforming⟩ := Entries.get?_of_forall₂ hn h f hf
  rw [Value.field_object, hv]
  exact hconforming

/-- What a document is decoded to has the type asked for and holds what the document says. -/
theorem fit_sound {type : AttributeType} {j : Json} {v : Value} (ht : type.DeclaresOnce)
    (h : fit type j = .ok v) : HasType type v ∧ Mirrors type j v := by
  induction type, j using parts_induction generalizing v with
  | step type j ih =>
    obtain ⟨hm, vs, rfl, hvs⟩ := fit_eq_ok h
    have hparts : List.Forall₂ Conforming (parts type j) vs :=
      List.forall₂_iff_zip.2 ⟨hvs.length_eq, fun hp =>
        have hmem := (List.of_mem_zip hp).1
        ih _ hmem (eachObject_of_mem_parts ht hmem) (forall_zip_of_forall₂ hvs _ hp)⟩
    clear h ih hvs
    cases type with
    | string =>
      cases j with
      | null => exact ⟨.null _, .null _⟩
      | string s => exact ⟨.string s, .string s⟩
      | number n => exact ⟨.string _, .numberText n⟩
      | bool b => exact ⟨.string _, .boolText b⟩
      | array js => simp [misfit?, AttributeType.kinds, Json.kind] at hm
      | object js => simp [misfit?, AttributeType.kinds, Json.kind] at hm
    | number =>
      cases j with
      | null => exact ⟨.null _, .null _⟩
      | number n => exact ⟨.number n, .number n⟩
      | string s =>
        cases hs : Number.ofText? s with
        | none => simp [misfit?, hs] at hm
        | some n =>
          simp only [assemble, hs]
          exact ⟨.number n, .numeral hs⟩
      | _ => simp [misfit?, AttributeType.kinds, Json.kind] at hm
    | bool =>
      cases j with
      | null => exact ⟨.null _, .null _⟩
      | bool b => exact ⟨.bool b, .bool b⟩
      | string s =>
        have hword : s = "true" ∨ s = "false" := by
          by_contra hs
          simp [misfit?, hs] at hm
        rcases hword with rfl | rfl
        · exact ⟨.bool true, .boolWord true⟩
        · exact ⟨.bool false, .boolWord false⟩
      | _ => simp [misfit?, AttributeType.kinds, Json.kind] at hm
    | dynamic =>
      cases j with
      | null => exact ⟨.null _, .null _⟩
      | _ => exact ⟨.dynamic _, .dynamic _⟩
    | list element =>
      cases j with
      | null => exact ⟨.null _, .null _⟩
      | array js =>
        obtain ⟨htypes, hlength, hmirrors⟩ := conforming_array hparts
        exact ⟨.list htypes, .list hlength hmirrors⟩
      | _ => simp [misfit?, AttributeType.kinds, Json.kind] at hm
    | set element =>
      cases j with
      | null => exact ⟨.null _, .null _⟩
      | array js =>
        obtain ⟨htypes, hlength, hmirrors⟩ := conforming_array hparts
        exact ⟨.set htypes, .set hlength hmirrors⟩
      | _ => simp [misfit?, AttributeType.kinds, Json.kind] at hm
    | tuple types =>
      cases j with
      | null => exact ⟨.null _, .null _⟩
      | array js =>
        have hdeclared : types.length = js.length := by
          by_contra hne
          simp [misfit?, hne] at hm
        obtain ⟨htypes, hlength, hmirrors⟩ := conforming_tuple hdeclared hparts
        exact ⟨.tuple htypes, .tuple hdeclared hlength hmirrors⟩
      | _ => simp [misfit?, AttributeType.kinds, Json.kind] at hm
    | map element =>
      cases j with
      | null => exact ⟨.null _, .null _⟩
      | object js =>
        obtain ⟨htypes, hnames, hmirrors⟩ := conforming_map hparts
        exact ⟨.map htypes, .map hnames hmirrors⟩
      | _ => simp [misfit?, AttributeType.kinds, Json.kind] at hm
    | object fields =>
      cases j with
      | null => exact ⟨.null _, .null _⟩
      | object js =>
        have hcovered := undeclared?_eq_none_iff.1 (Option.map_eq_none_iff.1 hm)
        cases ht with
        | object nodup each =>
          obtain ⟨hnames, hfields⟩ := conforming_object nodup hparts
          exact ⟨.object hnames fun f hf => (hfields f hf).1,
            .object hcovered fun f hf => (hfields f hf).2⟩
      | _ => simp [misfit?, AttributeType.kinds, Json.kind] at hm

/-- Converted scalars, a null and a missing field, under every kind of collection. -/
theorem fit_sound_nested :
    let type : AttributeType := .object [("name", .string), ("ports", .list .number),
      ("flags", .map .bool), ("pair", .tuple [.set .string, .dynamic]), ("gone", .string)]
    let j : Json := .object [("flags", .object [("a", .string "true"), ("b", .null)]),
      ("name", .bool true), ("pair", .array [.array [.string "x"], .array [.null]]),
      ("ports", .array [.string "80", .number (.natural 443 (by decide))])]
    let v : Value := .object [("name", .string "true"),
      ("ports", .list [.number (.natural 80 (by decide)), .number (.natural 443 (by decide))]),
      ("flags", .map [("a", .bool true), ("b", .null)]),
      ("pair", .tuple [.set [.string "x"], .tuple [.null]]), ("gone", .null)]
    fit type j = .ok v ∧ HasType type v ∧ Mirrors type j v := by
  intro type j v
  have hfit : fit type j = .ok v := by rfl
  have hdeclares : type.DeclaresOnce := by
    refine .object (by decide) ?_
    simp only [List.forall_mem_cons]
    refine ⟨.string, .list .number, .map .bool, .tuple ?_, .string, by simp⟩
    simp only [List.forall_mem_cons]
    exact ⟨.set .string, .dynamic, by simp⟩
  exact ⟨hfit, fit_sound hdeclares hfit⟩

end Decode

end StateText
