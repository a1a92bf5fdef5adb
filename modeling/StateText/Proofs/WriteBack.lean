import StateText.Proofs.Conformity
import StateText.Proofs.Conversion
import StateText.Proofs.Misfits
import StateText.Proofs.TypeNotation

/-!
# Writing a decoded value back

The document of a decoded value has the converted scalars, a null for each missing field, and no
trace of what kind of collection stood where. The type puts that back: `fit_toJson` says that the
value is decoded once more from its own document.
-/

namespace StateText

namespace Decode

open Value

/-- The value is what its own document is decoded to. -/
def Settled (type : AttributeType) (v : Value) : Prop := fit type v.toJson = .ok v

def Decoded (p : Part) (v : Value) : Prop := fit p.type p.node = .ok v

theorem settled_ofJson {j : Json} (hj : j.Ordered) : Settled .dynamic (ofJson j) := by
  rw [Settled, toJson_ofJson hj, fit_dynamic]

/-! ### Sequences -/

/-- The parts of an array are decoded if its elements are, wherever they stand. -/
theorem decoded_indexed {α : Type} {f : α × Nat → Part} {as : List α} {vs : List Value}
    (h : List.Forall₂ (fun a v => ∀ i, Decoded (f (a, i)) v) as vs) :
    List.Forall₂ Decoded (as.zipIdx.map f) vs := by
  rw [← List.zipIdx_map_fst 0 as, List.forall₂_map_left_iff] at h
  rw [List.forall₂_map_left_iff]
  exact h.imp fun p v hp => hp p.2

theorem decoded_elements {element : AttributeType} {vs : List Value}
    (h : ∀ v ∈ vs, Settled element v) :
    List.Forall₂ Decoded ((itemsToJson vs).zipIdx.map fun p => ⟨.index p.2, element, p.1⟩) vs := by
  refine decoded_indexed ?_
  rw [itemsToJson_eq_map, List.forall₂_map_left_iff, List.forall₂_same]
  exact fun v hv _ => h v hv

theorem settled_list {element : AttributeType} {vs : List Value}
    (h : ∀ v ∈ vs, Settled element v) : Settled (.list element) (.list vs) :=
  fit_eq_assemble (j := .array (itemsToJson vs)) rfl (decoded_elements h)

theorem settled_set {element : AttributeType} {vs : List Value}
    (h : ∀ v ∈ vs, Settled element v) : Settled (.set element) (.set vs) :=
  fit_eq_assemble (j := .array (itemsToJson vs)) rfl (decoded_elements h)

theorem settled_tuple {types : List AttributeType} {vs : List Value}
    (h : List.Forall₂ Settled types vs) : Settled (.tuple types) (.tuple vs) := by
  have hitems : List.Forall₂ (fun q v => fit q.1 q.2 = .ok v) (types.zip (itemsToJson vs)) vs := by
    induction h with
    | nil => exact .nil
    | cons hv _ ih => exact .cons hv ih
  have hm : misfit? (.tuple types) (.array (itemsToJson vs)) = none := by
    rw [misfit?, itemsToJson_eq_map, List.length_map, if_pos h.length_eq]
  exact fit_eq_assemble hm (decoded_indexed (hitems.imp fun _ _ hv _ => hv))

/-! ### Mappings -/

section Mapping

variable {names : List String} {vs : List Value}

theorem keys_zip_toJson (hlength : names.length = vs.length) :
    Entries.keys (names.zip (vs.map toJson)) = names :=
  List.map_fst_zip (by rw [List.length_map, hlength])

/-- Entries under ascending names stand in the document as they are. -/
theorem sorted_entriesToJson_zip (ascending : names.Pairwise (· < ·))
    (hlength : names.length = vs.length) :
    Entries.sorted (entriesToJson (names.zip vs)) = names.zip (vs.map toJson) := by
  have hzip : entriesToJson (names.zip vs) = names.zip (vs.map toJson) := by
    rw [entriesToJson_eq_map, List.zip_map_right]
    rfl
  rw [hzip]
  refine Entries.sorted_eq_self (Entries.ascending_iff.2 ?_)
  rwa [keys_zip_toJson hlength]

theorem settled_map {element : AttributeType} (ascending : names.Pairwise (· < ·))
    (hlength : names.length = vs.length) (h : ∀ v ∈ vs, Settled element v) :
    Settled (.map element) (.map (names.zip vs)) := by
  have hle : (vs.map toJson).length ≤ names.length := by rw [List.length_map, hlength]
  have hmembers : List.Forall₂ (fun e v => fit element e.2 = .ok v)
      (names.zip (vs.map toJson)) vs := by
    rw [← List.forall₂_map_left_iff (f := Prod.snd) (R := fun j v => fit element j = .ok v),
      List.map_snd_zip hle, List.forall₂_map_left_iff, List.forall₂_same]
    exact h
  have hfit : fit (.map element) (.object (names.zip (vs.map toJson))) =
      .ok (.map ((Entries.keys (names.zip (vs.map toJson))).zip vs)) :=
    fit_eq_assemble rfl (List.forall₂_map_left_iff.2 hmembers)
  rw [Settled, toJson, sorted_entriesToJson_zip ascending hlength, hfit, keys_zip_toJson hlength]

end Mapping

theorem settled_object {fields : List (String × AttributeType)} {vs : List Value}
    (ascending : fields.Pairwise fun f g => f.1 < g.1)
    (h : List.Forall₂ (fun f v => Settled f.2 v) fields vs) :
    Settled (.object fields) (.object (Entries.ofPairs ((Entries.keys fields).zip vs))) := by
  have hlength : (Entries.keys fields).length = vs.length := by
    rw [Entries.keys, List.length_map, h.length_eq]
  have hnodup : (Entries.keys fields).Nodup := Entries.nodup_keys_of_ascending ascending
  have hvalues : Entries.ofPairs ((Entries.keys fields).zip vs) = (Entries.keys fields).zip vs :=
    Entries.ofPairs_eq_self (by rwa [Entries.keys_zip_keys h.length_eq])
  have hkeys := keys_zip_toJson hlength
  -- every field is a member of the document, also one that is null for want of a member
  have hfields : List.Forall₂ (fun f v => fit f.2
      ((Entries.get? f.1 ((Entries.keys fields).zip (vs.map toJson))).getD .null) = .ok v)
      fields vs := by
    refine List.forall₂_iff_zip.2 ⟨h.length_eq, fun {f v} hfv => ?_⟩
    have hmem : (f.1, v.toJson) ∈ (Entries.keys fields).zip (vs.map toJson) := by
      rw [Entries.keys, List.zip_map]
      exact List.mem_map_of_mem (f := Prod.map Prod.fst toJson) hfv
    rw [(Entries.get?_eq_some_iff (by rwa [hkeys])).2 hmem]
    exact (List.forall₂_iff_zip.1 h).2 hfv
  have hcovered : undeclared? fields ((Entries.keys fields).zip (vs.map toJson)) = none :=
    undeclared?_eq_none_iff.2 fun name hname => by rwa [hkeys] at hname
  have hfit : fit (.object fields) (.object ((Entries.keys fields).zip (vs.map toJson))) =
      .ok (.object (Entries.ofPairs ((Entries.keys fields).zip vs))) :=
    fit_eq_assemble (Option.map_eq_none_iff.2 hcovered) (List.forall₂_map_left_iff.2 hfields)
  rw [Settled, hvalues, toJson,
    sorted_entriesToJson_zip (Entries.ascending_iff.1 ascending) hlength, hfit, hvalues]

/-! ### Any type -/

/-- What a document is decoded to is decoded from its own document. -/
theorem settled_of_fit {type : AttributeType} {j : Json} {v : Value} (ht : type.NamesAscend)
    (hj : j.Ordered) (h : fit type j = .ok v) : Settled type v := by
  induction type, j using parts_induction generalizing v with
  | step type j ih =>
    obtain ⟨hm, vs, rfl, hvs⟩ := fit_eq_ok h
    have hparts : List.Forall₂ (fun p v => Settled p.type v) (parts type j) vs :=
      List.forall₂_iff_zip.2 ⟨hvs.length_eq, fun hp =>
        have hmem := (List.of_mem_zip hp).1
        ih _ hmem (eachObject_of_mem_parts ht hmem) (ordered_of_mem_parts hj hmem)
          (forall_zip_of_forall₂ hvs _ hp)⟩
    clear h ih hvs
    cases type with
    | string =>
      cases j with
      | null => exact fit_null _
      | string s => rfl
      | number n => rfl
      | bool b => rfl
      | _ => simp [misfit?, AttributeType.kinds, Json.kind] at hm
    | number =>
      cases j with
      | null => exact fit_null _
      | number n => rfl
      | string s =>
        cases hs : Number.ofText? s with
        | none => simp [misfit?, hs] at hm
        | some n =>
          simp only [assemble, hs]
          rfl
      | _ => simp [misfit?, AttributeType.kinds, Json.kind] at hm
    | bool =>
      cases j with
      | null => exact fit_null _
      | bool b => rfl
      | string s => rfl
      | _ => simp [misfit?, AttributeType.kinds, Json.kind] at hm
    | dynamic =>
      cases j with
      | null => exact fit_null _
      | _ => exact settled_ofJson hj
    | list element =>
      cases j with
      | null => exact fit_null _
      | array js =>
        have hitems := forall₂_of_indexed hparts
        exact settled_list (forall_of_forall₂ hitems fun _ _ ⟨_, hv⟩ => hv)
      | _ => simp [misfit?, AttributeType.kinds, Json.kind] at hm
    | set element =>
      cases j with
      | null => exact fit_null _
      | array js =>
        have hitems := forall₂_of_indexed hparts
        exact settled_set (forall_of_forall₂ hitems fun _ _ ⟨_, hv⟩ => hv)
      | _ => simp [misfit?, AttributeType.kinds, Json.kind] at hm
    | tuple types =>
      cases j with
      | null => exact fit_null _
      | array js =>
        have hdeclared : types.length = js.length := by
          by_contra hne
          simp [misfit?, hne] at hm
        have htypes : List.Forall₂ (fun q v => Settled q.1 v) (types.zip js) vs :=
          (forall₂_of_indexed hparts).imp fun _ _ ⟨_, hv⟩ => hv
        rw [← List.forall₂_map_left_iff (f := Prod.fst), List.map_fst_zip hdeclared.le] at htypes
        exact settled_tuple htypes
      | _ => simp [misfit?, AttributeType.kinds, Json.kind] at hm
    | map element =>
      cases j with
      | null => exact fit_null _
      | object js =>
        rw [parts, List.forall₂_map_left_iff] at hparts
        cases hj with
        | object ascending _ =>
          refine settled_map (Entries.ascending_iff.1 ascending) ?_
            (forall_of_forall₂ hparts fun _ _ hv => hv)
          rw [Entries.keys, List.length_map, hparts.length_eq]
      | _ => simp [misfit?, AttributeType.kinds, Json.kind] at hm
    | object fields =>
      cases j with
      | null => exact fit_null _
      | object js =>
        rw [parts, List.forall₂_map_left_iff] at hparts
        cases ht with
        | object ascending _ => exact settled_object ascending hparts
      | _ => simp [misfit?, AttributeType.kinds, Json.kind] at hm

/-- Decoding is stable under writing back, for every type that is read from a document. -/
theorem fit_toJson {typeJson j : Json} {type : AttributeType} {v : Value}
    (htypeJson : typeJson.Ordered) (htype : AttributeType.ofJson typeJson = .ok type)
    (hj : j.Ordered) (h : fit type j = .ok v) : fit type v.toJson = .ok v :=
  settled_of_fit (AttributeType.namesAscend_of_ofJson htypeJson htype) hj h

/-- Converted scalars under a map and in a set, a field that is missing, and a dynamic part. -/
theorem fit_toJson_nested :
    let typeJson : Json := .array [.string "object", .object [
      ("flags", .array [.string "map", .string "bool"]), ("gone", .string "string"),
      ("pair", .array [.string "tuple",
        .array [.array [.string "set", .string "number"], .string "dynamic"]])]]
    let type : AttributeType := .object [("flags", .map .bool), ("gone", .string),
      ("pair", .tuple [.set .number, .dynamic])]
    let j : Json := .object [("flags", .object [("a", .string "true"), ("b", .null)]),
      ("pair", .array [.array [.string "80"], .object [("x", .array [.null])]])]
    let v : Value := .object [("flags", .map [("a", .bool true), ("b", .null)]), ("gone", .null),
      ("pair", .tuple [.set [.number (.natural 80 (by decide))], .object [("x", .tuple [.null])]])]
    let back : Json := .object [("flags", .object [("a", .bool true), ("b", .null)]),
      ("gone", .null), ("pair", .array [.array [.number (.natural 80 (by decide))],
        .object [("x", .array [.null])]])]
    typeJson.Ordered ∧ AttributeType.ofJson typeJson = .ok type ∧ j.Ordered ∧
      fit type j = .ok v ∧ v.toJson = back ∧ fit type back = .ok v := by
  intro typeJson type j v back
  have htypeJson : typeJson.Ordered := by
    have hword (kind word : String) : (Json.array [.string kind, .string word]).Ordered :=
      AttributeType.ordered_pair.2 (.string word)
    refine AttributeType.ordered_pair.2 (.object (by decide) ?_)
    simp only [List.forall_mem_cons]
    refine ⟨hword _ _, .string _, AttributeType.ordered_pair.2 (.array ?_), by simp⟩
    simp only [List.forall_mem_cons]
    exact ⟨hword _ _, .string _, by simp⟩
  have hj : j.Ordered := by
    refine .object (by decide) ?_
    simp only [List.forall_mem_cons]
    refine ⟨.object (by decide) ?_, .array ?_, by simp⟩
    · simp only [List.forall_mem_cons]
      exact ⟨.string _, .null, by simp⟩
    · simp only [List.forall_mem_cons]
      refine ⟨.array (List.forall_mem_singleton.2 (.string _)), .object (by decide) ?_, by simp⟩
      exact List.forall_mem_singleton.2 (.array (List.forall_mem_singleton.2 .null))
  have hfit : fit type j = .ok v := by rfl
  exact ⟨htypeJson, rfl, hj, hfit, rfl, fit_toJson htypeJson rfl hj hfit⟩

end Decode

end StateText
