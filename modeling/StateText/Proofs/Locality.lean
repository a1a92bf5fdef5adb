import StateText.Proofs.Ends

/-!
# One instance's block

A site is a state with a gap where one instance is stored, and `fill` puts an instance there.
`format_fill` describes the runs over all fillings of one site: they are stopped alike, or they
differ in the text and the problem of that one block.
-/

namespace StateText

namespace Entries

variable {κ α : Type} (le : κ → κ → Bool)

/-- Where an entry is inserted does not depend on its value. -/
theorem exists_insertBy_eq (key : κ) (es : Entries κ α) :
    ∃ front behind, ∀ v, insertBy le (key, v) es = front ++ (key, v) :: behind := by
  induction es with
  | nil => exact ⟨[], [], fun v => rfl⟩
  | cons d es ih =>
    by_cases h : le key d.1 = true
    · exact ⟨[], d :: es, fun v => by simp [insertBy, h]⟩
    · obtain ⟨front, behind, hi⟩ := ih
      exact ⟨d :: front, behind, fun v => by simp [insertBy, h, hi]⟩

/-- Nor does it depend on the values of the entries that are there. -/
theorem exists_insertBy_append_cons_eq (e : κ × α) (es ds : Entries κ α) (key : κ) :
    ∃ front behind, ∀ v, insertBy le e (es ++ (key, v) :: ds) = front ++ (key, v) :: behind := by
  induction es with
  | nil =>
    by_cases h : le e.1 key = true
    · exact ⟨[e], ds, fun v => by simp [insertBy, h]⟩
    · exact ⟨[], insertBy le e ds, fun v => by simp [insertBy, h]⟩
  | cons d es ih =>
    by_cases h : le e.1 d.1 = true
    · exact ⟨e :: d :: es, ds, fun v => by simp [insertBy, h]⟩
    · obtain ⟨front, behind, hi⟩ := ih
      exact ⟨d :: front, behind, fun v => by simp [insertBy, h, hi]⟩

theorem exists_sortBy_append_cons_eq (es ds : Entries κ α) (key : κ) :
    ∃ front behind, ∀ v, sortBy le (es ++ (key, v) :: ds) = front ++ (key, v) :: behind := by
  induction es with
  | nil => exact exists_insertBy_eq le key (sortBy le ds)
  | cons e es ih =>
    obtain ⟨front, behind, hs⟩ := ih
    obtain ⟨front', behind', hi⟩ := exists_insertBy_append_cons_eq le e front behind key
    exact ⟨front', behind', fun v => by simp [sortBy, hs, hi]⟩

theorem get?_append_cons [DecidableEq κ] (key k : κ) (es ds : Entries κ α) (v : α) :
    get? key (es ++ (k, v) :: ds) =
      (get? key es).or (if k = key then some v else get? key ds) := by
  induction es with
  | nil => rfl
  | cons e es ih =>
    rw [List.cons_append, get?_cons, get?_cons, ih]
    split_ifs <;> rfl

end Entries

/-- A state with a gap in place of one stored instance. -/
structure Site where
  modulesBefore : Entries String Module
  modulesBehind : Entries String Module
  moduleKey : String
  path : ModulePath
  outputs : Entries String Output
  resourcesBefore : Entries String Resource
  resourcesBehind : Entries String Resource
  resourceKey : String
  address : ResourceAddress
  provider : String
  instancesBefore : Entries InstanceKey Instance
  instancesBehind : Entries InstanceKey Instance
  key : InstanceKey

namespace Site

variable (x : Site) (i : Instance)

def resource : Resource :=
  ⟨x.address, x.provider, x.instancesBefore ++ (x.key, i) :: x.instancesBehind⟩

def module : Module :=
  ⟨x.path, x.resourcesBefore ++ (x.resourceKey, x.resource i) :: x.resourcesBehind, x.outputs⟩

def fill : State := ⟨x.modulesBefore ++ (x.moduleKey, x.module i) :: x.modulesBehind⟩

def located : Located := ⟨x.path, x.provider, x.address, x.key, i⟩

/-- Every instance of a state fills a site of it. -/
theorem exists_fill_eq {s : State} {m : String × Module} {r : String × Resource}
    {e : InstanceKey × Instance} (hm : m ∈ s.modules) (hr : r ∈ m.2.resources)
    (he : e ∈ r.2.instances) :
    ∃ x : Site, x.fill e.2 = s ∧
      x.located e.2 = ⟨m.2.path, r.2.provider, r.2.address, e.1, e.2⟩ := by
  obtain ⟨ms, ms', hms⟩ := List.append_of_mem hm
  obtain ⟨rs, rs', hrs⟩ := List.append_of_mem hr
  obtain ⟨is, is', his⟩ := List.append_of_mem he
  obtain ⟨modules⟩ := s
  obtain ⟨mk, path, resources, outputs⟩ := m
  obtain ⟨rk, address, provider, instances⟩ := r
  subst hms hrs his
  exact ⟨⟨ms, ms', mk, path, outputs, rs, rs', rk, address, provider, is, is', e.1⟩, rfl, rfl⟩

theorem exists_located_resource :
    ∃ ls ks, ∀ i, (x.resource i).located x.path = ls ++ x.located i :: ks := by
  let locate (e : InstanceKey × Instance) : Located := ⟨x.path, x.provider, x.address, e.1, e.2⟩
  refine ⟨x.instancesBefore.map locate, x.instancesBehind.map locate, fun i => ?_⟩
  rw [Resource.located, resource, List.map_append, List.map_cons]
  rfl

theorem exists_located_module :
    ∃ ls ks, ∀ i, (x.module i).located = ls ++ x.located i :: ks := by
  obtain ⟨front, behind, hs⟩ := Entries.exists_sortBy_append_cons_eq
    (fun a b : String => decide (a ≤ b)) x.resourcesBefore x.resourcesBehind x.resourceKey
  obtain ⟨ls, ks, hr⟩ := x.exists_located_resource
  refine ⟨(front.map Prod.snd).flatMap (Resource.located x.path) ++ ls,
    ks ++ (behind.map Prod.snd).flatMap (Resource.located x.path), fun i => ?_⟩
  have hsorted : (x.module i).sortedResources =
      front.map Prod.snd ++ x.resource i :: behind.map Prod.snd := by
    rw [Module.sortedResources, Entries.sorted, module, hs, List.map_append, List.map_cons]
  have hpath : (x.module i).path = x.path := rfl
  rw [Module.located, hsorted, hpath, List.flatMap_append, List.flatMap_cons, hr]
  simp only [List.append_assoc, List.cons_append]

theorem outputChars_fill (j : Instance) : (x.fill i).outputChars = (x.fill j).outputChars := by
  have hroot (i : Instance) : (x.fill i).root? =
      (Entries.get? ModulePath.root.text x.modulesBefore).or
        (if x.moduleKey = ModulePath.root.text then some (x.module i)
          else Entries.get? ModulePath.root.text x.modulesBehind) :=
    Entries.get?_append_cons _ _ _ _ _
  unfold State.outputChars
  rw [hroot, hroot]
  cases Entries.get? ModulePath.root.text x.modulesBefore with
  | some root => rfl
  | none => split_ifs <;> rfl

theorem moduleList_fill : (x.fill i).moduleList =
    x.modulesBefore.map Prod.snd ++ x.module i :: x.modulesBehind.map Prod.snd := by
  simp [State.moduleList, fill]

/-- The block of the instance lies between two texts that do not depend on it. -/
theorem exists_text_fill (w : Walk) :
    ∃ ls ks front behind, behind ≠ [] ∧ ∀ i, (x.fill i).located = ls ++ x.located i :: ks ∧
        (x.fill i).text w = front ++ (x.located i).chars w ++ behind := by
  obtain ⟨ls, ks, hm⟩ := x.exists_located_module
  let before := x.modulesBefore.map Prod.snd
  let after := x.modulesBehind.map Prod.snd
  refine ⟨before.flatMap Module.located ++ ls, ks ++ after.flatMap Module.located,
    Markup.Code.reset.token ++ before.flatMap (Module.text w) ++ ls.flatMap (Located.chars w),
    ks.flatMap (Located.chars w) ++ resetLine ++ after.flatMap (Module.text w) ++
      (x.fill ⟨.ready, ""⟩).outputChars, ?_, fun i => ⟨?_, ?_⟩⟩
  · simp [resetLine]
  · rw [State.located, moduleList_fill, List.flatMap_append, List.flatMap_cons, hm]
    simp [before, after]
  · rw [State.text, moduleList_fill, List.flatMap_append, List.flatMap_cons, Module.text, hm,
      x.outputChars_fill i ⟨.ready, ""⟩]
    simp [before, after]

theorem missing?_located (schemas : Schemas) (j : Instance) :
    (x.located i).missing? schemas = (x.located j).missing? schemas := rfl

theorem stopped?_fill (schemas : Schemas) (j : Instance) :
    Located.stopped? schemas (x.fill i).located = Located.stopped? schemas (x.fill j).located := by
  obtain ⟨ls, ks, front, behind, _, hfill⟩ := x.exists_text_fill (.json schemas .truncate)
  rw [(hfill i).1, (hfill j).1, Located.stopped?, List.findSome?_append, List.findSome?_cons,
    Located.stopped?, List.findSome?_append, List.findSome?_cons, x.missing?_located i schemas j]

/-- All fillings of a site are stopped by the same error, or none is. Then the instance shows in its
own block and has at most one problem, and what stands before and behind it is always the same. -/
theorem format_fill (w : Walk) :
    (∃ e, ∀ i color, ((x.fill i).format w color).1 = .error e) ∨
      (∀ i color, ∃ t, ((x.fill i).format w color).1 = .ok t) ∧
        ∃ ls ks front behind, ∀ i, (x.fill i).located = ls ++ x.located i :: ks ∧
          ((x.located i).diagnostics w).length ≤ 1 ∧
          (x.fill i).format w id =
            (.ok (String.ofList (front ++ (x.located i).chars w ++ behind)),
              ls.flatMap (Located.diagnostics w) ++ (x.located i).diagnostics w ++
                ks.flatMap (Located.diagnostics w)) := by
  let j : Instance := ⟨.ready, ""⟩
  cases hs : Located.stopped? w.schemas (x.fill j).located with
  | some e =>
    refine .inl ⟨e, fun i color => ?_⟩
    rw [State.format_eq_error_iff, x.stopped?_fill i w.schemas j, hs]
  | none =>
    have hcomplete (i : Instance) : Located.stopped? w.schemas (x.fill i).located = none :=
      (x.stopped?_fill i w.schemas j).trans hs
    have hne (i : Instance) : (x.fill i).isEmpty = false := by simp [State.isEmpty, fill]
    obtain ⟨ls, ks, front, behind, hb, hfill⟩ := x.exists_text_fill w
    refine .inr ⟨fun i color => ?_, ls, ks, front, behind.dropLast, fun i => ⟨(hfill i).1, ?_, ?_⟩⟩
    · exact ⟨_, congrArg Prod.fst (State.format_of_complete color (hne i) (hcomplete i))⟩
    · exact Block.diagnostics_length_le _
    · rw [State.format_id_of_complete (hne i) (hcomplete i), (hfill i).1, (hfill i).2,
        List.dropLast_append_of_ne_nil hb, List.flatMap_append, List.flatMap_cons,
        List.append_assoc (ls.flatMap _)]

end Site

end StateText
