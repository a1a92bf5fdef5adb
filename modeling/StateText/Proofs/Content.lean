import StateText.Proofs.Legible

/-!
# What the text of a state tells

The content of a state is what can be told from its text: which instances there are, what each of
them shows, and the root's outputs. `content_eq_of_format_eq` concludes from one text of two states
that they have one content.
-/

namespace StateText

structure InstanceContent where
  module : ModulePath
  resource : ResourceAddress
  key : InstanceKey
  isTainted : Bool
  attributes : List (String × Normal)

structure StateContent where
  /-- The instances, module by module. -/
  modules : List (List InstanceContent)
  /-- The outputs of the root module by name. -/
  outputs : List (String × Normal)

def normalEntry (e : String × Value) : String × Normal := (e.1, e.2.normal)

namespace Located

def attributes (w : Walk) (l : Located) : List (String × Value) :=
  match (l.block w).decoded with
  | .ok v => Value.written ((l.block w).schema.attributes.map fun a => (a.name, v.field a.name))
  | .error _ => []

def content (w : Walk) (l : Located) : InstanceContent where
  module := l.module
  resource := l.resource
  key := l.key
  isTainted := l.stored.isTainted
  attributes := (l.attributes w).map normalEntry

end Located

namespace State

def rootOutputs (s : State) : List (String × Value) :=
  match s.root? with
  | some root => (Entries.sorted root.outputs).map fun o => (o.1, o.2.value)
  | none => []

def content (w : Walk) (s : State) : StateContent where
  modules := s.moduleList.map fun m => m.located.map (Located.content w)
  outputs := s.rootOutputs.map normalEntry

/-- All names that are shown are identifiers, and all modes are known. -/
structure Named (schemas : Schemas) (s : State) : Prop where
  steps : ∀ m ∈ s.modules, ∀ step ∈ m.2.path.steps, IsIdentifier step
  resources : ∀ m ∈ s.modules, ∀ r ∈ m.2.resources, r.2.address.IsNamed
  attributes : ∀ provider mode type, ∀ schema ∈ schemas.lookup provider mode type,
    ∀ a ∈ schema.attributes, IsIdentifier a.name
  outputs : ∀ m ∈ s.modules, ∀ o ∈ m.2.outputs, IsIdentifier o.1

end State

/-! ### Instances -/

namespace Located

variable {w : Walk} {l : Located}

def attributeLine (e : String × Value) : List Char :=
  Text.spaces Render.level ++ valueLine Render.level e

theorem attributeLines_eq (schema : ResourceSchema) (v : Value) :
    Block.attributeLines schema v =
      (Value.written (schema.attributes.map fun a => (a.name, v.field a.name))).flatMap
        attributeLine := by
  unfold Block.attributeLines Value.written
  induction schema.attributes with
  | nil => rfl
  | cons a attributes ih =>
    rw [List.flatMap_cons, ih, List.map_cons, Block.attributeLine]
    cases h : (v.field a.name).isNull with
    | true =>
      rw [if_pos rfl, List.nil_append, List.filter_cons_of_neg (by rw [h]; decide)]
    | false =>
      rw [if_neg (by decide), List.filter_cons_of_pos (by rw [h]; decide), List.flatMap_cons]
      simp only [attributeLine, valueLine, List.append_assoc, List.cons_append]

/-- A decoded instance shows its header, its opening line and its attributes. -/
theorem chars_eq (hd : l.diagnostics w = []) :
    l.chars w = '#' :: ' ' :: (headerLine l.address l.stored.isTainted ++ '\n' ::
      ((l.block w).opening ++ ((l.attributes w).flatMap attributeLine ++ Block.closing))) := by
  have hheader : (l.block w).header =
      '#' :: ' ' :: (headerLine l.address l.stored.isTainted ++ ['\n']) := by
    have haddress : (l.block w).address = l.address := rfl
    have htainted : (l.block w).tainted = l.stored.isTainted := rfl
    rw [Block.header, headerLine, haddress, htainted]
    simp only [List.append_assoc, List.cons_append]
  cases hv : (l.block w).decoded with
  | error message =>
    rw [diagnostics, Block.diagnostics, hv] at hd
    cases hd
  | ok v =>
    have hchars : l.chars w = (l.block w).header ++ (l.block w).opening ++
        (Block.attributeLines (l.block w).schema v ++ Block.closing) := by
      rw [chars, Block.chars, Block.body, hv]
    rw [hchars, hheader, attributeLines_eq, attributes, hv]
    simp only [List.append_assoc, List.cons_append, List.nil_append]

structure IsLegible (w : Walk) (l : Located) : Prop where
  steps : ∀ step ∈ l.module.steps, IsIdentifier step
  resource : l.resource.IsNamed
  attributes : ∀ e ∈ l.attributes w, IsIdentifier e.1
  decoded : l.diagnostics w = []

theorem legible_attributeLine :
    Legible (fun e => IsIdentifier e.1) attributeLine normalEntry := by
  intro d e t u hd he h
  rw [attributeLine, attributeLine, List.append_assoc, List.append_assoc] at h
  exact legible_valueLine Render.level hd he (List.append_cancel_left h)

/-- Blocks are legible, whatever the walks that they are written by. -/
theorem legible_chars :
    Legible (fun x : Walk × Located => x.2.IsLegible x.1) (fun x => x.2.chars x.1)
      fun x => x.2.content x.1 := by
  rintro ⟨w, l⟩ ⟨w', l'⟩ t u hl hl' h
  dsimp only at hl hl' h ⊢
  rw [chars_eq hl.decoded, chars_eq hl'.decoded] at h
  simp only [List.cons_append, List.append_assoc] at h
  have hline {w : Walk} {l : Located} (hl : l.IsLegible w) :
      ∀ c ∈ headerLine l.address l.stored.isTainted, c ≠ '\n' :=
    ne_lineFeed_of_mem_headerLine (ne_lineFeed_of_mem_address hl.steps hl.resource l.key) _
  obtain ⟨hheader, hrest⟩ := append_cons_injective (hline hl) (hline hl')
    (List.cons.inj (List.cons.inj h).2).2
  obtain ⟨haddress, htainted⟩ := headerLine_injective hheader
  have hsegments {w : Walk} {l : Located} (hl : l.IsLegible w) :
      ∀ step ∈ l.module.steps, IsSegment step := fun step hs => (hl.steps step hs).isSegment
  obtain ⟨hmodule, hresource, hkey⟩ := instanceAddress_parts (hsegments hl) (hsegments hl')
    hl.resource.isPlain hl'.resource.isPlain haddress
  have hopening : (l.block w).opening = (l'.block w').opening := by
    unfold Block.opening
    rw [show (l.block w).resource = (l'.block w').resource from hresource]
  rw [hopening] at hrest
  obtain ⟨hattributes, hclosing⟩ := legible_attributeLine.flatMap (· = ' ')
    (fun e _ => ⟨' ', _, rfl, rfl⟩) hl.attributes hl'.attributes (by simp [Block.closing])
    (by simp [Block.closing])
    (List.append_cancel_left hrest)
  refine ⟨?_, List.append_cancel_left hclosing⟩
  rw [content, content, hmodule, hresource, hkey, htainted, hattributes]

theorem isIdentifier_of_mem_attributes
    (h : ∀ provider mode type, ∀ schema ∈ w.schemas.lookup provider mode type,
      ∀ a ∈ schema.attributes, IsIdentifier a.name) :
    ∀ e ∈ l.attributes w, IsIdentifier e.1 := by
  intro e he
  unfold attributes at he
  split at he
  · obtain ⟨a, ha, rfl⟩ := List.mem_map.1 (List.mem_filter.1 he).1
    have hschema : (l.block w).schema = (l.schema? w.schemas).getD .empty := rfl
    rw [hschema] at ha
    cases hs : l.schema? w.schemas with
    | none =>
      rw [hs] at ha
      exact absurd ha List.not_mem_nil
    | some schema =>
      rw [hs] at ha
      exact h _ _ _ schema hs a ha
  · exact absurd he List.not_mem_nil

end Located

/-! ### Modules and states -/

/-- The reset behind the blocks of a module starts no block. -/
theorem Module.legible_text :
    Legible (fun x : Walk × Module => ∀ l ∈ x.2.located, l.IsLegible x.1) (fun x => x.2.text x.1)
      fun x => x.2.located.map (Located.content x.1) := by
  rintro ⟨w, m⟩ ⟨w', m'⟩ t u hm hm' h
  have hblocks (w : Walk) (ls : List Located) : ls.flatMap (Located.chars w) =
      (ls.map fun l => (w, l)).flatMap fun x => x.2.chars x.1 := by
    rw [List.flatMap_map]
  have hvalid {w : Walk} {ls : List Located} (hls : ∀ l ∈ ls, l.IsLegible w) :
      ∀ x ∈ ls.map fun l => (w, l), x.2.IsLegible x.1 := by
    intro x hx
    obtain ⟨l, hl, rfl⟩ := List.mem_map.1 hx
    exact hls l hl
  dsimp only at h ⊢
  rw [text, text, hblocks, hblocks, List.append_assoc, List.append_assoc] at h
  obtain ⟨hcontents, hrest⟩ := Located.legible_chars.flatMap (· = '#')
    (fun x hx => ⟨'#', _, Located.chars_eq hx.decoded, rfl⟩) (hvalid hm) (hvalid hm')
    (by simp [resetLine, Markup.Code.token]) (by simp [resetLine, Markup.Code.token]) h
  rw [List.map_map, List.map_map] at hcontents
  exact ⟨hcontents, List.append_cancel_left hrest⟩

namespace State

variable {w : Walk} {s : State}

theorem Named.isLegible (hn : s.Named w.schemas)
    (hd : s.located.flatMap (Located.diagnostics w) = []) :
    ∀ m ∈ s.moduleList, ∀ l ∈ m.located, l.IsLegible w := by
  intro m hm l hl
  obtain ⟨e, he, rfl⟩ := List.mem_map.1 hm
  obtain ⟨r, hr, hlr⟩ := Module.mem_located.1 hl
  obtain ⟨i, _, rfl⟩ := List.mem_map.1 hlr
  refine ⟨hn.steps e he, hn.resources e he r hr,
    Located.isIdentifier_of_mem_attributes hn.attributes, ?_⟩
  exact List.flatMap_eq_nil_iff.1 hd _ (List.mem_flatMap.2 ⟨e.2, hm, hl⟩)

theorem isIdentifier_of_mem_rootOutputs (hn : s.Named w.schemas) :
    ∀ o ∈ s.rootOutputs, IsIdentifier o.1 := by
  intro o ho
  unfold rootOutputs at ho
  split at ho
  next root hr =>
    obtain ⟨d, hd, rfl⟩ := List.mem_map.1 ho
    have hmem : (ModulePath.root.text, root) ∈ s.modules := Entries.mem_of_get? hr
    exact hn.outputs _ hmem d (Entries.mem_sortBy.1 hd)
  next => exact absurd ho List.not_mem_nil

def outputsHeading : List Char := "\nOutputs:\n\n".toList

theorem outputChars_eq (s : State) : s.outputChars =
    if s.rootOutputs = [] then []
    else outputsHeading ++ s.rootOutputs.flatMap (valueLine 0) := by
  unfold outputChars rootOutputs
  cases s.root? with
  | none => rfl
  | some root =>
    dsimp only
    have hline : Module.outputLine = fun o => valueLine 0 (o.1, o.2.value) := by
      funext o
      simp only [Module.outputLine, valueLine, List.append_assoc, List.cons_append]
    have hsorted : (Entries.sorted root.outputs).map (fun o => (o.1, o.2.value)) = [] ↔
        root.outputs = [] :=
      List.map_eq_nil_iff.trans Entries.sorted_eq_nil_iff
    rw [Module.outputChars, List.flatMap_map, hline]
    by_cases hnil : root.outputs = []
    · rw [if_pos hnil, if_pos (hsorted.2 hnil)]
    · rw [if_neg hnil, if_neg (mt hsorted.1 hnil)]
      rfl

/-- The section of outputs tells them, and whether there are any. -/
theorem rootOutputs_of_outputChars {s s' : State} (ho : ∀ o ∈ s.rootOutputs, IsIdentifier o.1)
    (ho' : ∀ o ∈ s'.rootOutputs, IsIdentifier o.1) (h : s.outputChars = s'.outputChars) :
    s.rootOutputs.map normalEntry = s'.rootOutputs.map normalEntry := by
  have hheading (cs : List Char) : outputsHeading ++ cs ≠ [] :=
    List.append_ne_nil_of_left_ne_nil (by decide) cs
  rw [outputChars_eq, outputChars_eq] at h
  split_ifs at h with hn hn' hn'
  · rw [hn, hn']
  · exact absurd h.symm (hheading _)
  · exact absurd h (hheading _)
  · have hlines := List.append_cancel_left h
    rw [← List.append_nil (s.rootOutputs.flatMap _),
      ← List.append_nil (s'.rootOutputs.flatMap _)] at hlines
    have hstart : ∀ e : String × Value, IsIdentifier e.1 →
        ∃ c cs, valueLine 0 e = c :: cs ∧ True := by
      intro e he
      obtain ⟨c, cs, hc, _, _⟩ := Literal.exists_cons_of_isIdentifier he
      exact ⟨c, _, by rw [valueLine, hc]; rfl, trivial⟩
    exact ((legible_valueLine 0).flatMap (fun _ => True) hstart ho ho' (by simp) (by simp)
      hlines).1

theorem start_text {m : Module} (h : ∀ l ∈ m.located, l.IsLegible w) :
    ∃ c cs, m.text w = c :: cs ∧ c ≠ '\n' := by
  rw [Module.text]
  cases hl : m.located with
  | nil => exact ⟨'[', _, rfl, by decide⟩
  | cons l ls =>
    have hlegible := h l (hl ▸ List.mem_cons_self)
    rw [List.flatMap_cons, Located.chars_eq hlegible.decoded]
    exact ⟨'#', _, rfl, by decide⟩

theorem head?_outputChars (s : State) : ∀ c ∈ s.outputChars.head?, ¬ c ≠ '\n' := by
  intro c hc
  rw [outputChars_eq] at hc
  split_ifs at hc
  · cases hc
  · exact not_not.2 (Option.some.inj hc).symm

theorem content_eq_of_text_eq {w' : Walk} {s' : State} (hn : s.Named w.schemas)
    (hn' : s'.Named w'.schemas) (hd : s.located.flatMap (Located.diagnostics w) = [])
    (hd' : s'.located.flatMap (Located.diagnostics w') = []) (h : s.text w = s'.text w') :
    s.content w = s'.content w' := by
  have hmodules (w : Walk) (ms : List Module) : ms.flatMap (Module.text w) =
      (ms.map fun m => (w, m)).flatMap fun x => x.2.text x.1 := by
    rw [List.flatMap_map]
  have hvalid {w : Walk} {s : State} (hn : s.Named w.schemas)
      (hd : s.located.flatMap (Located.diagnostics w) = []) :
      ∀ x ∈ s.moduleList.map fun m => (w, m), ∀ l ∈ x.2.located, l.IsLegible x.1 := by
    intro x hx
    obtain ⟨m, hm, rfl⟩ := List.mem_map.1 hx
    exact hn.isLegible hd m hm
  rw [text, text, List.append_assoc, List.append_assoc, hmodules, hmodules] at h
  obtain ⟨hcontents, houtputs⟩ := Module.legible_text.flatMap (· ≠ '\n')
    (fun x hx => start_text hx) (hvalid hn hd) (hvalid hn' hd') s.head?_outputChars
    s'.head?_outputChars (List.append_cancel_left h)
  rw [List.map_map, List.map_map] at hcontents
  have hroot := rootOutputs_of_outputChars (isIdentifier_of_mem_rootOutputs hn)
    (isIdentifier_of_mem_rootOutputs hn') houtputs
  rw [content, content, hroot]
  exact congrArg (StateContent.mk · _) hcontents

/-- Two states that are shown by one text without a problem have the same content. -/
theorem content_eq_of_format_eq {w' : Walk} {s' : State} {t : String} (hne : s.isEmpty = false)
    (hne' : s'.isEmpty = false) (hn : s.Named w.schemas) (hn' : s'.Named w'.schemas)
    (h : s.format w id = (.ok t, [])) (h' : s'.format w' id = (.ok t, [])) :
    s.content w = s'.content w' := by
  have hshown {w : Walk} {s : State} (hne : s.isEmpty = false)
      (h : s.format w id = (.ok t, [])) :
      s.text w = t.toList ++ ['\n'] ∧ s.located.flatMap (Located.diagnostics w) = [] := by
    have hcomplete := complete_of_format_eq_ok id (congrArg Prod.fst h)
    rw [format_id_of_complete hne hcomplete] at h
    obtain ⟨htext, hd⟩ := Prod.mk.inj h
    rw [← Except.ok.inj htext, String.toList_ofList, ← text_eq_snoc w hne]
    exact ⟨rfl, hd⟩
  obtain ⟨htext, hd⟩ := hshown hne h
  obtain ⟨htext', hd'⟩ := hshown hne' h'
  exact content_eq_of_text_eq hn hn' hd hd' (htext.trans htext'.symm)

def tagged (output : Value) : State :=
  ⟨[("", ⟨.root, [("a.b", ⟨⟨.managed, "a", "b"⟩, "p", [(.int 0,
    ⟨.tainted, "\x7b\"tags\":[true]\x7d"⟩)]⟩)], [("x", ⟨output, false⟩)]⟩)]⟩

def taggedWalk (type : AttributeType) : Walk :=
  .json ⟨[("p", ⟨[("a", ⟨[⟨"tags", type⟩]⟩)], []⟩)]⟩ .truncate

theorem named_tagged (output : Value) (type : AttributeType) :
    (tagged output).Named (taggedWalk type).schemas where
  steps m hm step hs := by
    cases List.mem_singleton.1 hm
    exact absurd hs List.not_mem_nil
  resources m hm r hr := by
    cases List.mem_singleton.1 hm
    cases List.mem_singleton.1 hr
    exact ⟨rfl, rfl, rfl⟩
  attributes provider mode name schema hs a ha := by
    rw [Option.mem_def, Schemas.lookup] at hs
    split at hs
    · cases hs
    next p hp =>
      cases List.mem_singleton.1 (Entries.mem_of_get? hp)
      cases mode with
      | managed =>
        cases List.mem_singleton.1 (Entries.mem_of_get? hs)
        cases List.mem_singleton.1 ha
        exact (rfl : Literal.isIdentifier "tags".toList = true)
      | data => cases hs
      | unknown word => cases hs
  outputs m hm o ho := by
    cases List.mem_singleton.1 hm
    cases List.mem_singleton.1 ho
    exact (rfl : Literal.isIdentifier "x".toList = true)

/-- Lists, sets and tuples are not told apart, in attributes or in outputs. -/
theorem content_eq_of_format_eq_tagged :
    let s := tagged (.list [.null])
    let s' := tagged (.tuple [.null])
    let w := taggedWalk (.list .bool)
    let w' := taggedWalk (.set .bool)
    s.format w id = s'.format w' id ∧ s.content w = s'.content w' := by
  intro s s' w w'
  have hcomplete : Located.stopped? w.schemas s.located = none := by decide +kernel
  have hcomplete' : Located.stopped? w'.schemas s'.located = none := by decide +kernel
  have hd : s.located.flatMap (Located.diagnostics w) = [] := by decide +kernel
  have hd' : s'.located.flatMap (Located.diagnostics w') = [] := by decide +kernel
  have htext : s'.text w' = s.text w := by decide +kernel
  have h : s.format w id = (.ok (String.ofList (s.text w).dropLast), []) := by
    rw [format_id_of_complete rfl hcomplete, hd]
  have h' : s'.format w' id = (.ok (String.ofList (s.text w).dropLast), []) := by
    rw [format_id_of_complete rfl hcomplete', hd', htext]
  exact ⟨h.trans h'.symm,
    content_eq_of_format_eq rfl rfl (named_tagged _ _) (named_tagged _ _) h h'⟩

end State

end StateText
