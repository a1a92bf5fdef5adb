import StateText.Proofs.Distinct
import StateText.Proofs.Parts

/-!
# The first misfit

A walk visits a document and its type together: a node before what lies below it, and its parts in
their order. `IsMisfit` says which nodes do not fit their own type, and why. `fit_fails_at_misfit`
says that decoding fails exactly when the walk meets such a node, and that the error is about the
first one that it meets.
-/

namespace StateText

structure Visit where
  path : List Step
  type : AttributeType
  node : Json

def Visit.under (step : Step) (v : Visit) : Visit := { v with path := step :: v.path }

namespace Decode

open DecodeError

/-- The node itself does not fit the type, for this reason. A text under `number` spells a number
if one of the numbers of a document is written like that. -/
inductive IsMisfit : AttributeType → Json → Reason → Prop
  | kind {type : AttributeType} {j : Json} (given : j ≠ .null)
      (other : j.kind ∉ type.kinds) : IsMisfit type j (.kind type j)
  | notNumber {s : String} (unspelled : Number.ofText? s = none) :
      IsMisfit .number (.string s) (.notNumber s)
  | notBool {s : String} (notTrue : s ≠ "true") (notFalse : s ≠ "false") :
      IsMisfit .bool (.string s) (.kind .bool (.string s))
  | tupleLength {types : List AttributeType} {js : List Json} (ne : types.length ≠ js.length) :
      IsMisfit (.tuple types) (.array js) (.tupleLength types.length js.length)
  /-- The first name that the object has and the type has not. -/
  | undeclared {fields : List (String × AttributeType)} {js : List (String × Json)}
      {name : String} {front behind : List String}
      (names : Entries.keys js = front ++ name :: behind)
      (declared : ∀ other ∈ front, other ∈ Entries.keys fields)
      (extra : name ∉ Entries.keys fields) :
      IsMisfit (.object fields) (.object js) (.undeclared name)

theorem undeclared?_eq_some_iff {fields : List (String × AttributeType)}
    {js : List (String × Json)} {name : String} :
    undeclared? fields js = some name ↔ ∃ front behind,
      Entries.keys js = front ++ name :: behind ∧
        (∀ other ∈ front, other ∈ Entries.keys fields) ∧ name ∉ Entries.keys fields := by
  rw [undeclared?, List.find?_eq_some_iff_append]
  simp only [Bool.not_eq_true', List.contains_eq_mem, decide_eq_false_iff_not, Bool.not_not,
    decide_eq_true_eq]
  constructor
  · rintro ⟨extra, front, behind, names, declared⟩
    exact ⟨front, behind, names, declared, extra⟩
  · rintro ⟨front, behind, names, declared, extra⟩
    exact ⟨extra, front, behind, names, declared⟩

theorem isMisfit_of_misfit? {type : AttributeType} {j : Json} {reason : Reason}
    (h : misfit? type j = some reason) : IsMisfit type j reason := by
  unfold misfit? at h
  split at h
  · cases h
  next s =>
    split_ifs at h with hs
    cases h
    exact .notNumber (by simpa using hs)
  next s =>
    split_ifs at h with hs
    cases h
    obtain ⟨ht, hf⟩ := not_or.1 hs
    exact .notBool ht hf
  next types js =>
    split_ifs at h with hl
    cases h
    exact .tupleLength hl
  next fields js =>
    obtain ⟨name, hname, rfl⟩ := Option.map_eq_some_iff.1 h
    obtain ⟨front, behind, names, declared, extra⟩ := undeclared?_eq_some_iff.1 hname
    exact .undeclared names declared extra
  next type j hnull _ _ _ _ =>
    split_ifs at h with hk
    cases h
    exact .kind hnull hk

theorem misfit?_of_isMisfit {type : AttributeType} {j : Json} {reason : Reason}
    (h : IsMisfit type j reason) : misfit? type j = some reason := by
  cases h with
  | kind given other =>
    cases type <;> cases j <;> simp_all [misfit?, AttributeType.kinds, Json.kind]
  | notNumber unspelled => simp [misfit?, unspelled]
  | notBool notTrue notFalse => simp [misfit?, notTrue, notFalse]
  | tupleLength ne => simp [misfit?, ne]
  | undeclared names declared extra =>
    rw [misfit?, undeclared?_eq_some_iff.2 ⟨_, _, names, declared, extra⟩]
    rfl

def visits (type : AttributeType) (j : Json) : List Visit :=
  ⟨[], type, j⟩ :: (parts type j).attach.flatMap fun p =>
    (visits p.1.type p.1.node).map (Visit.under p.1.step)
termination_by sizeOf type
decreasing_by exact sizeOf_lt_of_mem_parts p.2

theorem visits_eq (type : AttributeType) (j : Json) :
    visits type j = ⟨[], type, j⟩ :: (parts type j).flatMap fun p =>
      (visits p.type p.node).map (Visit.under p.step) := by
  let below (p : Part) : List Visit := (visits p.type p.node).map (Visit.under p.step)
  have hattach := List.flatMap_subtype (l := (parts type j).attach)
    (f := fun p => below p.1) (g := below) fun _ _ => rfl
  rw [visits, hattach, List.unattach_attach]

theorem mem_visits_iff {type : AttributeType} {j : Json} {v : Visit} :
    v ∈ visits type j ↔ v = ⟨[], type, j⟩ ∨
      ∃ p ∈ parts type j, ∃ u ∈ visits p.type p.node, v = u.under p.step := by
  rw [visits_eq]
  simp only [List.mem_cons, List.mem_flatMap, List.mem_map, eq_comm]

def Visit.error? (v : Visit) : Option DecodeError :=
  (misfit? v.type v.node).map fun reason => ⟨v.path, reason⟩

theorem findSome?_map_under (step : Step) (vs : List Visit) :
    (vs.map (Visit.under step)).findSome? Visit.error? =
      (vs.findSome? Visit.error?).map (DecodeError.under step) := by
  induction vs with
  | nil => rfl
  | cons v vs ih =>
    have herror : Visit.error? (v.under step) = (Visit.error? v).map (DecodeError.under step) := by
      rw [Visit.error?, Visit.error?, Option.map_map]
      rfl
    rw [List.map_cons, List.findSome?_cons, List.findSome?_cons, herror, ih]
    cases Visit.error? v <;> rfl

/-- Parts are decoded up to the first misfit in or below one of them. -/
theorem fitParts_eq_error_iff {ps : List Part} (ih : ∀ p ∈ ps, ∀ e, fit p.type p.node = .error e ↔
      (visits p.type p.node).findSome? Visit.error? = some e) (e : DecodeError) :
    fitParts ps = .error e ↔
      (ps.flatMap fun p => (visits p.type p.node).map (Visit.under p.step)).findSome?
        Visit.error? = some e := by
  induction ps with
  | nil => simp [fitParts]
  | cons p ps ihps =>
    obtain ⟨hp, hps⟩ := List.forall_mem_cons.1 ih
    rw [fitParts, List.flatMap_cons, List.findSome?_append, findSome?_map_under]
    cases hfit : fit p.type p.node with
    | error d =>
      rw [(hp d).1 hfit]
      simp
    | ok v =>
      have hnone : (visits p.type p.node).findSome? Visit.error? = none := by
        by_contra hsome
        obtain ⟨d, hd⟩ := Option.ne_none_iff_exists'.1 hsome
        rw [(hp d).2 hd] at hfit
        cases hfit
      rw [hnone, Option.map_none, Option.none_or, ← ihps hps]
      cases fitParts ps <;> simp [Except.map]

theorem fit_eq_error_iff {type : AttributeType} {j : Json} (e : DecodeError) :
    fit type j = .error e ↔ (visits type j).findSome? Visit.error? = some e := by
  induction type, j using parts_induction generalizing e with
  | step type j ih =>
    have hparts := fitParts_eq_error_iff ih e
    rw [fit_eq, visits_eq, List.findSome?_cons]
    cases hm : misfit? type j with
    | some reason => simp [Visit.error?, hm, root]
    | none =>
      simp only [Visit.error?, hm, Option.map_none]
      rw [← hparts]
      cases fitParts (parts type j) <;> simp [Except.map]

theorem ordered_of_mem_parts {type : AttributeType} {j : Json} (hj : j.Ordered) {p : Part}
    (hp : p ∈ parts type j) : p.node.Ordered := by
  cases isPart_of_mem_parts hp with
  | list mem => cases hj with | array each => exact each _ mem
  | set mem => cases hj with | array each => exact each _ mem
  | tuple _ mem => cases hj with | array each => exact each _ mem
  | map mem => cases hj with | object _ each => exact each _ mem
  | @object _ js f _ =>
    cases hj with
    | object _ each =>
      dsimp only
      cases hget : Entries.get? f.1 js with
      | none => exact .null
      | some node => exact each _ (Entries.mem_of_get? hget)

/-- What lies below an ordered node is ordered. -/
theorem ordered_of_mem_visits {type : AttributeType} {j : Json} (hj : j.Ordered) :
    ∀ v ∈ visits type j, v.node.Ordered := by
  induction type, j using parts_induction with
  | step type j ih =>
    intro v hv
    rcases mem_visits_iff.1 hv with rfl | ⟨p, hp, u, hu, rfl⟩
    · exact hj
    · exact ih p hp (ordered_of_mem_parts hj hp) u hu

theorem error?_eq_none_iff {v : Visit} :
    Visit.error? v = none ↔ ∀ reason, ¬ IsMisfit v.type v.node reason := by
  rw [Visit.error?, Option.map_eq_none_iff, Option.eq_none_iff_forall_ne_some]
  exact forall_congr' fun reason => not_congr ⟨isMisfit_of_misfit?, misfit?_of_isMisfit⟩

/-- A walk meets a misfit exactly when decoding fails. The error has the steps to the first misfit
and the reason why it is one. The members of an object are visited in the order of their names,
because that is how an ordered document lists them. -/
theorem fit_fails_at_misfit (type : AttributeType) (j : Json) :
    ((∃ e, fit type j = .error e) ↔
        ∃ v ∈ visits type j, ∃ reason, IsMisfit v.type v.node reason) ∧
      (∀ e, fit type j = .error e → ∃ before v behind reason,
        visits type j = before ++ v :: behind ∧
          (∀ u ∈ before, ∀ other, ¬ IsMisfit u.type u.node other) ∧
          IsMisfit v.type v.node reason ∧ e.path = v.path ∧
          Step.path e.path = String.join (v.path.map Step.text) ∧ e.message = reason.message) ∧
      (j.Ordered → ∀ v ∈ visits type j, v.node.Ordered) := by
  have hfirst : ∀ e, fit type j = .error e → ∃ before v behind reason,
      visits type j = before ++ v :: behind ∧
        (∀ u ∈ before, ∀ other, ¬ IsMisfit u.type u.node other) ∧
        IsMisfit v.type v.node reason ∧ e = ⟨v.path, reason⟩ := by
    intro e he
    obtain ⟨before, v, behind, hvisits, hv, hbefore⟩ :=
      List.findSome?_eq_some_iff.1 ((fit_eq_error_iff e).1 he)
    obtain ⟨reason, hreason, rfl⟩ := Option.map_eq_some_iff.1 hv
    exact ⟨before, v, behind, reason, hvisits, fun u hu => error?_eq_none_iff.1 (hbefore u hu),
      isMisfit_of_misfit? hreason, rfl⟩
  refine ⟨⟨?_, ?_⟩, ?_, ordered_of_mem_visits⟩
  · rintro ⟨e, he⟩
    obtain ⟨before, v, behind, reason, hvisits, _, hmisfit, _⟩ := hfirst e he
    exact ⟨v, by simp [hvisits], reason, hmisfit⟩
  · rintro ⟨v, hv, reason, hmisfit⟩
    have hsome : (visits type j).findSome? Visit.error? ≠ none := by
      intro hnone
      exact error?_eq_none_iff.1 (List.findSome?_eq_none_iff.1 hnone v hv) reason hmisfit
    obtain ⟨e, he⟩ := Option.ne_none_iff_exists'.1 hsome
    exact ⟨e, (fit_eq_error_iff e).2 he⟩
  · intro e he
    obtain ⟨before, v, behind, reason, hvisits, hbefore, hmisfit, rfl⟩ := hfirst e he
    exact ⟨before, v, behind, reason, hvisits, hbefore, hmisfit, rfl, rfl, rfl⟩

example :
    let type : AttributeType := .object [("n", .number), ("tags", .map .string)]
    let j : Json := .object [("n", .string "80"), ("tags", .object [("env", .array [])])]
    (fit type j).mapError DecodeError.display =
      .error ".tags[\"env\"]: string required, got array" := by
  rfl

end Decode

end StateText
