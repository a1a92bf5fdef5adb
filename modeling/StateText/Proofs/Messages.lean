import StateText.Proofs.Misfits
import StateText.Proofs.OneLine
import StateText.Proofs.TextFaults

/-!
# Messages on one line

What the display of a decoding error says stays on one line if the names that a type declares do:
strings of the document are quoted, and everything else comes from a fixed stock of words and
numbers.
-/

namespace StateText

theorem Json.Fault.lineFeed_not_mem_message {fault : Fault} (h : fault.cause.isMisfit = false) :
    '\n' ∉ fault.message.toList := by
  have hcause : '\n' ∉ fault.cause.message.toList := by
    cases hc : fault.cause with
    | misfit reason =>
      rw [hc] at h
      cases h
    | _ => simp [Cause.message]
  simp [message, hcause]

/-- No object type in the type, at any depth, declares a name that takes several lines. -/
def AttributeType.DeclaresLines (type : AttributeType) : Prop :=
  type.EachObject fun fields => ∀ name ∈ Entries.keys fields, '\n' ∉ name.toList

/-- Of the parts of a path, only the name of a field is shown as it is. -/
def Step.OnLine : Step → Prop
  | field name => '\n' ∉ name.toList
  | _ => True

theorem Step.OnLine.lineFeed_not_mem_text {step : Step} (h : step.OnLine) :
    '\n' ∉ step.text.toList := by
  cases step with
  | field name =>
    have hname : '\n' ∉ name.toList := h
    simp [text, hname]
  | index i => simp [text]
  | key k => simp [text]

theorem Step.lineFeed_not_mem_path {steps : List Step} (h : ∀ step ∈ steps, step.OnLine) :
    '\n' ∉ (path steps).toList := by
  simpa [path] using fun step hstep => (h step hstep).lineFeed_not_mem_text

namespace Decode

open DecodeError

theorem onLine_of_mem_parts {type : AttributeType} (ht : type.DeclaresLines) {j : Json} {p : Part}
    (hp : p ∈ parts type j) : p.step.OnLine := by
  cases isPart_of_mem_parts hp with
  | object declared =>
    cases ht with | object holds _ => exact holds _ (List.mem_map_of_mem declared)
  | _ => trivial

theorem onLine_of_mem_visits {type : AttributeType} (ht : type.DeclaresLines) {j : Json} :
    ∀ v ∈ visits type j, ∀ step ∈ v.path, step.OnLine := by
  induction type, j using parts_induction with
  | step type j ih =>
    intro v hv
    rcases mem_visits_iff.1 hv with rfl | ⟨p, hp, u, hu, rfl⟩
    · exact fun step hstep => absurd hstep List.not_mem_nil
    · exact List.forall_mem_cons.2
        ⟨onLine_of_mem_parts ht hp, ih p hp (eachObject_of_mem_parts ht hp) u hu⟩

theorem IsMisfit.lineFeed_not_mem_message {type : AttributeType} {j : Json} {reason : Reason}
    (h : IsMisfit type j reason) : '\n' ∉ reason.message.toList := by
  have htype (type : AttributeType) : '\n' ∉ type.name.toList := by
    cases type <;> simp [AttributeType.name]
  have hkind (j : Json) : '\n' ∉ j.kind.toList := by
    cases j <;> simp [Json.kind]
  unfold Reason.message
  cases h <;> simp [htype, hkind]

/-- What is shown in place of attributes that could not be decoded. -/
theorem lineFeed_not_mem_display {type : AttributeType} (ht : type.DeclaresLines) {text : String}
    {e : DecodeError} (h : decode type text = .error e) : '\n' ∉ e.display.toList := by
  have hlocated : '\n' ∉ (Step.path e.path).toList → '\n' ∉ e.message.toList →
      '\n' ∉ e.display.toList := by
    intro hpath hmessage
    unfold display located
    split_ifs
    · exact hmessage
    · simp [hpath, hmessage]
  unfold decode at h
  split at h
  next fault hfault =>
    cases h
    have hfault := Json.Fault.lineFeed_not_mem_message (Json.isMisfit_of_parse hfault)
    have hmessage : '\n' ∉ ("invalid JSON: " ++ fault.message).toList := by simp [hfault]
    exact hlocated (by simp [root, Step.path]) hmessage
  next j _ =>
    obtain ⟨v, hv, herror⟩ := List.exists_of_findSome?_eq_some ((fit_eq_error_iff e).1 h)
    obtain ⟨reason, hreason, rfl⟩ := Option.map_eq_some_iff.1 herror
    exact hlocated (Step.lineFeed_not_mem_path (onLine_of_mem_visits ht v hv))
      (isMisfit_of_misfit? hreason).lineFeed_not_mem_message

end Decode

end StateText
