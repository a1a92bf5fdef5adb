import StateText.Proofs.LoadedState
import StateText.Proofs.Parts
import StateText.Proofs.Reread

/-!
# Stored attributes

The attributes of an instance are stored as the compact text of the document that was read, and are
read from that text when they are decoded. Decoding the text is fitting the document with its
floating-point numbers as their digits are read: `decode_render`. A number that its own digits do
not lead back to is what the text of a document may lose.
-/

namespace StateText

open Json.Reader

/-! ### Attributes in a state file -/

theorem StoredInstance.readable_of_record {depth : ℕ} (hdepth : depth ≤ depthLimit)
    {cs rest : List Char} {i : StoredInstance}
    (h : record StoredInstance.shape depth cs = .ok (i, rest)) : i.attributes.Readable := by
  refine record_forall (Q := fun i => i.attributes.Readable)
    (P := fun fields => ∀ j ∈ fields.attributes, j.Readable) ?_ ?_ ?_ ?_ h
  · intro j hj
    cases hj
  · intro d hd fields name cs fields' rest hfields hm
    simp only [shape] at hm
    split at hm
    · obtain ⟨_, _, _, rfl⟩ := once_eq_ok hm
      exact hfields
    · obtain ⟨_, _, _, rfl⟩ := once_eq_ok hm
      exact hfields
    · obtain ⟨_, j, hj, rfl⟩ := once_eq_ok hm
      intro j' hj'
      cases hj'
      exact Json.readable_of_value (hd.le.trans hdepth) hj
    · rwa [skipMember_eq_ok hm]
  · intro fields i hfields hi
    cases hi
    cases hj : fields.attributes with
    | none => exact Json.readable_null
    | some j => exact hfields j hj
  · intro d hd cs i rest hi
    simp only [shape, bind, Except.bind, pure, Except.pure] at hi
    repeat' split at hi
    all_goals cases hi
    next hj =>
      exact nextOr_forall Json.readable_null
        (fun _ _ _ => Json.readable_of_value (hd.le.trans hdepth)) hj

theorem StoredResource.readable_of_record {depth : ℕ} (hdepth : depth ≤ depthLimit)
    {cs rest : List Char} {r : StoredResource}
    (h : record StoredResource.shape depth cs = .ok (r, rest)) :
    ∀ i ∈ r.instances, i.attributes.Readable := by
  have hinstances {d : ℕ} (hd : d < depth) {cs rest : List Char} {is : List StoredInstance}
      (hi : instancesReader d cs = .ok (is, rest)) : ∀ i ∈ is, i.attributes.Readable :=
    list_forall (fun _ hd' _ _ _ =>
      StoredInstance.readable_of_record ((hd'.trans hd).le.trans hdepth)) hi
  refine record_forall (Q := fun r => ∀ i ∈ r.instances, i.attributes.Readable)
    (P := fun fields => ∀ is ∈ fields.instances, ∀ i ∈ is, i.attributes.Readable) ?_ ?_ ?_ ?_ h
  · intro is his
    cases his
  · intro d hd fields name cs fields' rest hfields hm
    simp only [shape] at hm
    split at hm
    case h_5 =>
      obtain ⟨_, is, his, rfl⟩ := once_eq_ok hm
      intro is' his'
      cases his'
      exact hinstances hd his
    case h_6 => rwa [skipMember_eq_ok hm]
    all_goals
      obtain ⟨_, _, _, rfl⟩ := once_eq_ok hm
      exact hfields
  · intro fields r hfields hr
    simp only [shape, bind, Except.bind, pure, Except.pure] at hr
    repeat' split at hr
    all_goals cases hr
    cases his : fields.instances with
    | none => exact fun i hi => absurd hi List.not_mem_nil
    | some is => exact hfields is his
  · intro d hd cs r rest hr
    simp only [shape, bind, Except.bind, pure, Except.pure] at hr
    repeat' split at hr
    all_goals cases hr
    next his =>
      exact nextOr_forall (fun i hi => absurd hi List.not_mem_nil) (fun _ _ _ => hinstances hd) his

namespace Json

/-- A document from a text of its own, or the attributes of an instance in a state file. -/
inductive IsRead : Json → Prop
  | parse {text : String} {j : Json} (h : Json.parse text = .ok j) : IsRead j
  | attributes {content : String} {records : List StoredModule}
      (h : State.parseRecords content = .ok records) {m : StoredModule} (hm : m ∈ records)
      {r : StoredResource} (hr : r ∈ m.resources) {i : StoredInstance} (hi : i ∈ r.instances) :
      IsRead i.attributes

theorem IsRead.readable {j : Json} (h : j.IsRead) : j.Readable := by
  cases h with
  | parse h => exact readable_of_parse h
  | attributes h hm hr hi =>
    exact State.resources_forall
      (fun _ hd _ _ _ => StoredResource.readable_of_record hd.le) h _ hm _ hr _ hi

end Json

/-! ### Decoding -/

namespace Value

mutual

theorem eq_of_ofJson_eq : ∀ {j j' : Json}, ofJson j = ofJson j' → j = j'
  | .null, j', h => by cases j' <;> first | rfl | cases h
  | .bool _, j', h => by
    cases j' with
    | bool _ => rw [Value.bool.inj h]
    | _ => cases h
  | .number _, j', h => by
    cases j' with
    | number _ => rw [Value.number.inj h]
    | _ => cases h
  | .string _, j', h => by
    cases j' with
    | string _ => rw [Value.string.inj h]
    | _ => cases h
  | .array _, j', h => by
    cases j' with
    | array _ => rw [eq_of_ofItems_eq (Value.tuple.inj h)]
    | _ => cases h
  | .object _, j', h => by
    cases j' with
    | object _ => rw [eq_of_ofFields_eq (Value.object.inj h)]
    | _ => cases h

theorem eq_of_ofItems_eq : ∀ {items items' : List Json}, ofItems items = ofItems items' →
    items = items'
  | [], [], _ => rfl
  | _ :: _, _ :: _, h => by
    obtain ⟨hitem, hitems⟩ := List.cons.inj h
    rw [eq_of_ofJson_eq hitem, eq_of_ofItems_eq hitems]

theorem eq_of_ofFields_eq : ∀ {fields fields' : List (String × Json)},
    ofFields fields = ofFields fields' → fields = fields'
  | [], [], _ => rfl
  | (_, _) :: _, (_, _) :: _, h => by
    obtain ⟨hfield, hfields⟩ := List.cons.inj h
    obtain ⟨rfl, hvalue⟩ := Prod.mk.inj hfield
    rw [eq_of_ofJson_eq hvalue, eq_of_ofFields_eq hfields]

end

end Value

namespace Decode

/-- Two documents that fit every type alike are one. -/
theorem eq_of_fit_eq {j j' : Json} (h : ∀ type, fit type j = fit type j') : j = j' := by
  have hdynamic := h .dynamic
  rw [fit_dynamic, fit_dynamic] at hdynamic
  exact Value.eq_of_ofJson_eq (Except.ok.inj hdynamic)

theorem decode_text (type : AttributeType) {j : Json} (h : j.Readable) :
    decode type j.render = fit type j.reread := by
  rw [decode, Json.parse_render h]

/-- The stored text of a document stands for the document with its floating-point numbers as their
digits are read, and so for the document itself if each of them is the number of its digits. -/
theorem decode_render {j : Json} (h : j.IsRead) :
    (∀ type, decode type j.render = fit type j.reread) ∧
      (∀ x ∈ j.floats,
        Number.ofText? (String.ofList (Number.float x).text) = some (.float x.reread)) ∧
      ((∀ type, decode type j.render = fit type j) ↔ ∀ x ∈ j.floats, x.reread = x) := by
  have hdecode (type : AttributeType) := decode_text type h.readable
  refine ⟨hdecode, fun x _ => Number.ofText?_text (.float x), ?_⟩
  rw [← Json.reread_eq_self_iff]
  constructor
  · intro hsame
    exact eq_of_fit_eq fun type => (hdecode type).symm.trans (hsame type)
  · intro hsame type
    rw [hdecode, hsame]

/-- Of two floating-point numbers, the text keeps one. -/
theorem decode_render_two : ∃ j,
    Json.parse "\x7b\"size\": [9007199254740991e0, 2.5, -7, \"a\"]\x7d" = .ok j ∧
      j.render = "\x7b\"size\":[9007199254740991.0,2.5,-7,\"a\"]\x7d" ∧
      j.reread.render = "\x7b\"size\":[9007199254740990.0,2.5,-7,\"a\"]\x7d" ∧
      (∀ type, decode type j.render = fit type j.reread) ∧
      (∀ x ∈ j.floats,
        Number.ofText? (String.ofList (Number.float x).text) = some (.float x.reread)) ∧
      ¬ ∀ type, decode type j.render = fit type j := by
  obtain ⟨j, hj, heq⟩ : ∃ j,
      Json.parse "\x7b\"size\": [9007199254740991e0, 2.5, -7, \"a\"]\x7d" = .ok j ∧
        (j.render, j.reread.render, j.floats.all fun x => decide (x.reread = x)) =
          ("\x7b\"size\":[9007199254740991.0,2.5,-7,\"a\"]\x7d",
            "\x7b\"size\":[9007199254740990.0,2.5,-7,\"a\"]\x7d", false) :=
    exists_of_map_toOption (by decide +kernel)
  obtain ⟨hrender, heq⟩ := Prod.mk.inj heq
  obtain ⟨hreread, hall⟩ := Prod.mk.inj heq
  obtain ⟨hdecode, hfloats, hiff⟩ := decode_render (.parse hj)
  refine ⟨j, hj, hrender, hreread, hdecode, hfloats, fun hsame => ?_⟩
  rw [← Bool.not_eq_true, List.all_eq_true] at hall
  exact hall fun x hx => decide_eq_true (hiff.1 hsame x hx)

/-- The text of a whole number may lose it: with the zero behind its point, it has a digit too many
to be read without rounding. -/
theorem decode_render_ne_fit : ∃ j, Json.parse "9007199254740991e0" = .ok j ∧
    decode .number j.render ≠ fit .number j := by
  let shown (result : Except DecodeError Value) : Option String :=
    result.toOption.map fun v => v.toJson.render
  obtain ⟨j, hj, heq⟩ : ∃ j, Json.parse "9007199254740991e0" = .ok j ∧
      (shown (decode .number j.render), shown (fit .number j)) =
        (some "9007199254740990.0", some "9007199254740991.0") :=
    exists_of_map_toOption (by decide +kernel)
  obtain ⟨hdecode, hfit⟩ := Prod.mk.inj heq
  refine ⟨j, hj, fun hsame => ?_⟩
  rw [hsame, hfit] at hdecode
  exact absurd hdecode (by decide)

end Decode

end StateText
