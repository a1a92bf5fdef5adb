import StateText.Proofs.Arranged
import StateText.Proofs.MissingSchema

/-!
# What a text depends on

A resource without instances is not shown, and neither are the outputs of any module but the root.
What is left of a state without these is its visible part. `format_eq_of_visible_eq` says that the
run over a state depends on its visible part only, and on the schemas of the resources in it.
-/

namespace StateText

namespace Module

/-- The resources that have instances, listed by name, and the outputs if the key is the root's. -/
def visible (key : String) (m : Module) : Module where
  path := m.path
  resources := Entries.sorted (m.resources.filter fun r => !r.2.instances.isEmpty)
  outputs := if key = ModulePath.root.text then m.outputs else []

/-- A resource without instances adds nothing to the instances of its module. -/
theorem located_visible (key : String) (m : Module) : (m.visible key).located = m.located := by
  have hempty : ∀ r : String × Resource, r.2.instances.isEmpty = true →
      r.2.located m.path = [] := by
    intro r hr
    rw [Resource.located, List.isEmpty_iff.1 hr, List.map_nil]
  rw [located_eq_flatMap, located_eq_flatMap, visible, Entries.sorted_sorted,
    Entries.sorted_filter]
  dsimp only
  induction Entries.sorted m.resources with
  | nil => rfl
  | cons r rs ih =>
    by_cases hr : r.2.instances.isEmpty = true
    · rw [List.filter_cons_of_neg (by simpa using hr), List.flatMap_cons, hempty r hr, ih,
        List.nil_append]
    · rw [List.filter_cons_of_pos (by simpa using hr), List.flatMap_cons, List.flatMap_cons, ih]

end Module

/-- The schemas have the same entry for every resource of a state that has instances. -/
def Schemas.AgreeOn (a b : Schemas) (s : State) : Prop :=
  ∀ m ∈ s.modules, ∀ r ∈ m.2.resources, r.2.instances ≠ [] →
    a.lookup r.2.provider r.2.address.mode r.2.address.type =
      b.lookup r.2.provider r.2.address.mode r.2.address.type

namespace State

/-! ### The visible part -/

/-- The state without resources that have no instances and without outputs of other modules than
the root. -/
def visible (s : State) : State := ⟨s.modules.map fun m => (m.1, m.2.visible m.1)⟩

variable (s : State)

theorem moduleList_visible : s.visible.moduleList = s.modules.map fun m => m.2.visible m.1 := by
  rw [moduleList, visible, List.map_map]
  rfl

theorem located_visible : s.visible.located = s.located := by
  rw [located, moduleList_visible, located, moduleList, List.flatMap_map, List.flatMap_map]
  simp only [Module.located_visible]

theorem outputChars_visible : s.visible.outputChars = s.outputChars := by
  have hroot : s.visible.root? = s.root?.map (Module.visible ModulePath.root.text) :=
    Entries.get?_map_values _ Module.visible _
  rw [outputChars, outputChars, hroot]
  cases s.root? with
  | none => rfl
  | some root =>
    change (root.visible _).outputChars = root.outputChars
    rw [Module.outputChars, Module.visible, if_pos rfl, Module.outputChars]

theorem text_visible (w : Walk) : s.visible.text w = s.text w := by
  rw [text, moduleList_visible, outputChars_visible, text, moduleList, List.flatMap_map,
    List.flatMap_map]
  simp only [Module.text, Module.located_visible]

theorem format_visible (w : Walk) (color : List Char → List Char) :
    s.visible.format w color = s.format w color := by
  refine format_congr color List.isEmpty_map ?_ ?_ (s.text_visible w)
  · rw [located_visible]
  · rw [located_visible]

end State

/-! ### Schemas -/

namespace Located

variable {w : Walk} {schemas : Schemas}

/-- An instance is shown by its own schema. -/
theorem chars_congr {l : Located} (h : l.schema? w.schemas = l.schema? schemas) :
    l.chars { w with schemas := schemas } = l.chars w ∧
      l.diagnostics { w with schemas := schemas } = l.diagnostics w := by
  unfold chars diagnostics block
  rw [h]
  exact ⟨rfl, rfl⟩

theorem missing?_congr {a b : Schemas} {l : Located} (h : l.schema? a = l.schema? b) :
    l.missing? a = l.missing? b := by
  unfold missing?
  rw [h]

/-- A walk is stopped at the same instance by schemas that agree. -/
theorem stopped?_congr {a b : Schemas} {ls : List Located}
    (h : ∀ l ∈ ls, l.schema? a = l.schema? b) :
    stopped? a ls = stopped? b ls ∧ reached a ls = reached b ls := by
  induction ls with
  | nil => exact ⟨rfl, rfl⟩
  | cons l ls ih =>
    obtain ⟨hl, hls⟩ := List.forall_mem_cons.1 h
    have hrest := ih hls
    simp only [stopped?, reached, List.findSome?_cons, List.takeWhile_cons,
      missing?_congr hl] at hrest ⊢
    rw [hrest.1, hrest.2]
    exact ⟨rfl, rfl⟩

end Located

namespace State

variable {s : State} {w : Walk} {schemas : Schemas}

theorem schema?_eq_of_agreeOn {a b : Schemas} (h : a.AgreeOn b s) :
    ∀ l ∈ s.located, l.schema? a = l.schema? b := by
  intro l hl
  obtain ⟨m, hm, r, hr, hl⟩ := mem_located.1 hl
  obtain ⟨i, hi, rfl⟩ := List.mem_map.1 hl
  exact h m hm r hr (List.ne_nil_of_mem hi)

theorem text_eq_of_agreeOn (h : w.schemas.AgreeOn schemas s) :
    s.text { w with schemas := schemas } = s.text w := by
  have hmodule : ∀ m ∈ s.moduleList,
      Module.text { w with schemas := schemas } m = Module.text w m := by
    intro m hm
    have hchars : ∀ l ∈ m.located, l.chars { w with schemas := schemas } = l.chars w :=
      fun l hl => (Located.chars_congr
        (schema?_eq_of_agreeOn h l (List.mem_flatMap.2 ⟨m, hm, hl⟩))).1
    rw [Module.text, List.flatMap_congr hchars, Module.text]
  rw [text, List.flatMap_congr hmodule, text]

theorem format_eq_of_agreeOn (h : w.schemas.AgreeOn schemas s) (color : List Char → List Char) :
    s.format { w with schemas := schemas } color = s.format w color := by
  have hschema := schema?_eq_of_agreeOn h
  obtain ⟨hstop, hreached⟩ := Located.stopped?_congr hschema
  refine format_congr color rfl hstop.symm ?_ (text_eq_of_agreeOn h)
  rw [hreached]
  refine List.flatMap_congr fun l hl => (Located.chars_congr (hschema l ?_)).2
  exact (List.takeWhile_prefix _).subset hl

/-- Two states with the same visible part have the same text or the same error and the same
problems, in every style and under every color, if the schemas agree on the resources that have
instances. -/
theorem format_eq_of_visible_eq {s s' : State} (hs : s.visible = s'.visible) {w : Walk}
    {schemas : Schemas} (hw : w.schemas.AgreeOn schemas s) (color : List Char → List Char) :
    s'.format { w with schemas := schemas } color = s.format w color := by
  rw [← format_visible s', ← hs, format_visible, format_eq_of_agreeOn hw]

def cluttered : State :=
  ⟨[("", ⟨.root, [("u.a", ⟨⟨.managed, "u", "a"⟩, "p", []⟩),
      ("t.a", ⟨⟨.managed, "t", "a"⟩, "p", [(.none, ⟨.tainted, "\x7b\x7d"⟩)]⟩)],
      [("x", ⟨.bool true, false⟩)]⟩),
    ("module.m", ⟨⟨["m"]⟩, [("data.v.b", ⟨⟨.data, "v", "b"⟩, "q", []⟩)],
      [("y", ⟨.null, false⟩)]⟩)]⟩

def cleared : State :=
  ⟨[("", ⟨.root, [("t.a", ⟨⟨.managed, "t", "a"⟩, "p", [(.none, ⟨.tainted, "\x7b\x7d"⟩)]⟩)],
      [("x", ⟨.bool true, false⟩)]⟩),
    ("module.m", ⟨⟨["m"]⟩, [], [("z", ⟨.bool false, true⟩)]⟩)]⟩

theorem format_eq_of_visible_eq_cleared :
    let w := Walk.json ⟨[("p", ⟨[("t", .empty)], []⟩)]⟩ .truncate
    let schemas : Schemas :=
      ⟨[("q", .empty), ("p", ⟨[("u", ⟨[⟨"id", .string⟩]⟩), ("t", .empty)], [("t", .empty)]⟩)]⟩
    cluttered.visible = cleared.visible ∧ w.schemas.AgreeOn schemas cluttered ∧
      cleared.format { w with schemas := schemas } id = cluttered.format w id := by
  intro w schemas
  have hvisible : cluttered.visible = cleared.visible := rfl
  have hagree : w.schemas.AgreeOn schemas cluttered := by
    intro m hm r hr hne
    rcases List.mem_cons.1 hm with rfl | hm
    · rcases List.mem_cons.1 hr with rfl | hr
      · exact absurd rfl hne
      · rw [List.mem_singleton.1 hr]
        rfl
    · rw [List.mem_singleton.1 hm] at hr
      rw [List.mem_singleton.1 hr] at hne
      exact absurd rfl hne
  exact ⟨hvisible, hagree, format_eq_of_visible_eq hvisible hagree id⟩

end State

end StateText
