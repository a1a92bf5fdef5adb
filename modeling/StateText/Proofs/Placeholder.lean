import StateText.Proofs.Ends

/-!
# Failed blocks in the two styles

A block that could not be decoded is left open in one style and closed behind a comment in the
other. `Commented` relates two texts of which the second has such comments and is otherwise the
first; `format_commented` says that the two styles of a state are related like this, that they stop
at the same resource and that they report the same failures.
-/

namespace StateText

def Walk.inStyle (w : Walk) (style : FailureStyle) : Walk := { w with style }

namespace Located

variable (w : Walk) (l : Located)

/-- Why the attributes could not be decoded. Without a schema nobody looks at them. -/
def error? : Option DecodeError :=
  match l.schema? w.schemas with
  | none => none
  | some block =>
    match w.decode block.objectType l.stored.attributes with
    | .ok _ => none
    | .error e => some e

def opening : List Char := (l.block w).header ++ (l.block w).opening

def failures (ls : List Located) : List (Located × DecodeError) :=
  ls.filterMap fun l => (l.error? w).map fun e => (l, e)

def diagnosticOf (f : Located × DecodeError) : Diagnostic := ⟨f.1.address, f.2.display⟩

theorem failures_append (ls ks : List Located) :
    failures w (ls ++ ks) = failures w ls ++ failures w ks := List.filterMap_append

theorem failures_cons (ls : List Located) :
    failures w (l :: ls) = ((l.error? w).map fun e => (l, e)).toList ++ failures w ls := by
  unfold failures
  rw [List.filterMap_cons]
  cases l.error? w <;> rfl

/-- Resources of an unknown mode have no schema, so they cannot fail. -/
theorem isKnown_of_error? {w : Walk} {l : Located} {e : DecodeError} (h : l.error? w = some e) :
    l.resource.mode.isKnown = true := by
  cases hm : l.resource.mode with
  | managed => rfl
  | data => rfl
  | unknown word => simp [error?, schema?, hm] at h

theorem decoded_of_error? {w : Walk} {l : Located} {e : DecodeError} (h : l.error? w = some e) :
    (l.block w).decoded = .error e.display := by
  unfold error? at h
  unfold block Block.ofInstance Block.decodeInstance
  split at h
  next => cases h
  next block hb =>
    rw [hb]
    dsimp only
    split at h
    next => cases h
    next d hd =>
      rw [hd, Option.some.inj h]
      rfl

theorem decoded_of_no_error {w : Walk} {l : Located} (h : l.error? w = none) :
    ∃ v, (l.block w).decoded = .ok v := by
  unfold error? at h
  unfold block Block.ofInstance Block.decodeInstance
  split at h
  next hb =>
    rw [hb]
    exact ⟨_, rfl⟩
  next block hb =>
    rw [hb]
    dsimp only
    split at h
    next v hv =>
      rw [hv]
      exact ⟨v, rfl⟩
    next => cases h

theorem diagnostics_eq :
    l.diagnostics w = (((l.error? w).map fun e => (l, e)).toList).map diagnosticOf := by
  unfold diagnostics Block.diagnostics
  cases h : l.error? w with
  | none =>
    obtain ⟨v, hv⟩ := decoded_of_no_error h
    simp [hv]
  | some e =>
    rw [decoded_of_error? h]
    rfl

theorem flatMap_diagnostics (ls : List Located) :
    ls.flatMap (diagnostics w) = (failures w ls).map diagnosticOf := by
  induction ls with
  | nil => rfl
  | cons l ls ih => rw [List.flatMap_cons, ih, failures_cons, List.map_append, diagnostics_eq]

end Located

def DecodeError.comment (e : DecodeError) : List Char :=
  "    # decode error: ".toList ++ e.display.toList ++ "\n\x7d\n\n".toList

open Located

/-- The second text is the first one with a comment for each failure, right behind the opening line
of its block. -/
inductive Commented (w : Walk) : List (Located × DecodeError) → List Char → List Char → Prop
  | same (cs : List Char) : Commented w [] cs cs
  | behind (front : List Char) (l : Located) (e : DecodeError) {fs : List (Located × DecodeError)}
      {t p : List Char} (rest : Commented w fs t p) :
      Commented w ((l, e) :: fs) (front ++ l.opening w ++ t)
        (front ++ l.opening w ++ e.comment ++ p)

namespace Commented

variable {w : Walk} {fs gs : List (Located × DecodeError)} {t p t' p' : List Char}

theorem prepend (cs : List Char) (h : Commented w fs t p) : Commented w fs (cs ++ t) (cs ++ p) := by
  cases h with
  | same ds => exact .same _
  | behind front l e rest =>
    have hb := Commented.behind (cs ++ front) l e rest
    simpa only [List.append_assoc] using hb

theorem append (h : Commented w fs t p) (k : Commented w gs t' p') :
    Commented w (fs ++ gs) (t ++ t') (p ++ p') := by
  induction h with
  | same cs => exact k.prepend cs
  | behind front l e rest ih =>
    have hb := Commented.behind front l e ih
    simpa only [List.append_assoc, List.cons_append] using hb

end Commented

namespace Located

variable (w : Walk)

/-- One block in both styles: the same unless it failed. -/
theorem commented_chars (l : Located) :
    Commented w ((l.error? w).map fun e => (l, e)).toList (l.chars (w.inStyle .truncate))
      (l.chars (w.inStyle .placeholder)) := by
  have hchars (style : FailureStyle) :
      l.chars (w.inStyle style) = l.opening w ++ (l.block w).body style := rfl
  rw [hchars, hchars]
  unfold Block.body
  cases h : l.error? w with
  | none =>
    obtain ⟨v, hv⟩ := decoded_of_no_error h
    rw [hv]
    exact .same _
  | some e =>
    rw [decoded_of_error? h]
    have hb := Commented.behind (w := w) [] l e (.same [])
    have hp : Block.placeholder e.display = e.comment := rfl
    simpa [hp] using hb

theorem commented_flatMap (ls : List Located) :
    Commented w (failures w ls) (ls.flatMap (chars (w.inStyle .truncate)))
      (ls.flatMap (chars (w.inStyle .placeholder))) := by
  induction ls with
  | nil => exact .same []
  | cons l ls ih =>
    rw [failures_cons]
    exact (commented_chars w l).append ih

end Located

theorem Module.commented_text (w : Walk) (ms : List Module) :
    Commented w (failures w (ms.flatMap Module.located))
      (ms.flatMap (Module.text (w.inStyle .truncate)))
      (ms.flatMap (Module.text (w.inStyle .placeholder))) := by
  induction ms with
  | nil => exact .same []
  | cons m ms ih =>
    have hm := (commented_flatMap w m.located).append (.same resetLine)
    rw [List.append_nil] at hm
    rw [List.flatMap_cons, failures_append]
    exact hm.append ih

namespace State

/-- The last reset follows all blocks, so trimming takes nothing off a comment. -/
theorem commented_text {w : Walk} {s : State} (hne : s.isEmpty = false) :
    Commented w (failures w s.located) (s.text (w.inStyle .truncate)).dropLast
      (s.text (w.inStyle .placeholder)).dropLast := by
  have hms : s.moduleList ≠ [] := by simpa [moduleList, isEmpty] using hne
  let last := s.moduleList.getLast hms
  have htext (style : FailureStyle) : (s.text (w.inStyle style)).dropLast =
      Markup.Code.reset.token ++ (s.moduleList.dropLast.flatMap (Module.text (w.inStyle style)) ++
        (last.located.flatMap (chars (w.inStyle style)) ++
          (resetLine ++ s.outputChars).dropLast)) := by
    have hreset : resetLine ++ s.outputChars ≠ [] := by simp [resetLine]
    rw [text, Text.flatMap_eq_append_getLast _ hms, Module.text]
    simp only [List.append_assoc]
    rw [List.dropLast_append_of_ne_nil, List.dropLast_append_of_ne_nil,
      List.dropLast_append_of_ne_nil hreset]
    all_goals simp [resetLine]
  have hlocated : s.located = s.moduleList.dropLast.flatMap Module.located ++ last.located :=
    Text.flatMap_eq_append_getLast _ hms
  rw [htext, htext, hlocated, failures_append]
  have hlast := (commented_flatMap w last.located).append
    (.same (resetLine ++ s.outputChars).dropLast)
  rw [List.append_nil] at hlast
  exact ((Module.commented_text w _).append hlast).prepend _

/-- What is shown in the one style is what is shown in the other with the comments. -/
theorem exists_commented {w : Walk} {s : State} {t : String}
    (ht : (s.format (w.inStyle .truncate) id).1 = .ok t) :
    ∃ p, (s.format (w.inStyle .placeholder) id).1 = .ok p ∧
      Commented w (failures w s.located) t.toList p.toList := by
  have hs : stopped? w.schemas s.located = none :=
    complete_of_format_eq_ok (w := w.inStyle .truncate) id ht
  cases hne : s.isEmpty with
  | true =>
    rw [format_of_isEmpty id hne] at ht
    rw [format_of_isEmpty id hne, located_of_isEmpty hne]
    exact ⟨t, ht, .same _⟩
  | false =>
    rw [format_id_of_complete hne (w := w.inStyle .truncate) hs] at ht
    rw [format_id_of_complete hne (w := w.inStyle .placeholder) hs, ← Except.ok.inj ht]
    refine ⟨_, rfl, ?_⟩
    rw [String.toList_ofList, String.toList_ofList]
    exact commented_text hne

/-- The two styles of a state stop at the same resource and report the same failures: those of the
instances that they reach. When they are not stopped, they reach every instance, and the closed
style is the open one with a comment for each failure. -/
theorem format_commented (w : Walk) (s : State) :
    let truncated := s.format (w.inStyle .truncate)
    let closed := s.format (w.inStyle .placeholder)
    let failed := failures w (reached w.schemas s.located)
    (∀ color e, (truncated color).1 = .error e ↔ (closed color).1 = .error e) ∧
      (∀ color, (truncated color).2 = failed.map diagnosticOf ∧
        (closed color).2 = failed.map diagnosticOf) ∧
      (∀ f ∈ failed, f.1.resource.mode.isKnown = true) ∧
      ∀ t, (truncated id).1 = .ok t → reached w.schemas s.located = s.located ∧
        ∃ p, (closed id).1 = .ok p ∧ Commented w failed t.toList p.toList := by
  intro truncated closed failed
  have hreport (style : FailureStyle) (color : List Char → List Char) :
      (s.format (w.inStyle style) color).2 = failed.map diagnosticOf := by
    rw [format_diagnostics]
    exact flatMap_diagnostics w _
  refine ⟨?_, fun color => ⟨hreport _ color, hreport _ color⟩, ?_, ?_⟩
  · intro color e
    have ht := format_eq_error_iff (w := w.inStyle .truncate) (s := s) (e := e) color
    exact ht.trans (format_eq_error_iff (w := w.inStyle .placeholder) color).symm
  · intro f hf
    obtain ⟨l, _, hl⟩ := List.mem_filterMap.1 hf
    obtain ⟨e, he, rfl⟩ := Option.map_eq_some_iff.1 hl
    exact isKnown_of_error? he
  · intro t ht
    have hall : reached w.schemas s.located = s.located :=
      reached_eq_self (complete_of_format_eq_ok (w := w.inStyle .truncate) id ht)
    refine ⟨hall, ?_⟩
    simp only [failed, hall]
    exact exists_commented ht

end State

end StateText
