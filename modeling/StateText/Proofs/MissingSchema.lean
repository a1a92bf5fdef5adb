import StateText.Proofs.IterationOrder

/-!
# Missing schemas

A resource of a known mode needs a schema as soon as it has instances. `format_missing_schema` says
that a run fails exactly when one is missing, that it fails at the first resource without its schema
in the order of the keys, and what a module has left on its page by then.
-/

namespace StateText

/-- What a search along a list in order finds first. -/
theorem exists_first {α β : Type} {R : α → α → Prop} {f : α → Option β} {as : List α} {b : β}
    (hs : as.Pairwise R) (h : as.findSome? f = some b) :
    ∃ front a behind, as = front ++ a :: behind ∧ f a = some b ∧
      (∀ x ∈ front, f x = none ∧ R x a) ∧ ∀ x ∈ behind, R a x := by
  obtain ⟨front, a, behind, rfl, ha, hfront⟩ := List.findSome?_eq_some_iff.1 h
  obtain ⟨_, hrest, hcross⟩ := List.pairwise_append.1 hs
  exact ⟨front, a, behind, rfl, ha,
    fun x hx => ⟨hfront x hx, hcross x hx a List.mem_cons_self⟩, (List.pairwise_cons.1 hrest).1⟩

namespace Resource

/-- Instances of a known mode, and nothing that says which attributes they have. -/
structure LacksSchema (schemas : Schemas) (r : Resource) : Prop where
  instances : r.instances ≠ []
  known : r.address.mode.isKnown = true
  lookup : schemas.lookup r.provider r.address.mode r.address.type = none

def needed (r : Resource) : MissingSchema := ⟨r.provider, r.address.mode, r.address.type⟩

variable {schemas : Schemas} {module : ModulePath} {r : Resource}

theorem missing?_located_eq_some_iff {l : Located} (hl : l ∈ r.located module)
    {e : MissingSchema} : l.missing? schemas = some e ↔ r.LacksSchema schemas ∧ r.needed = e := by
  obtain ⟨i, hi, rfl⟩ := List.mem_map.1 hl
  unfold Located.missing? Located.schema?
  dsimp only
  constructor
  · intro h
    split at h
    · cases h
    next hlookup =>
      split_ifs at h with hknown
      exact ⟨⟨List.ne_nil_of_mem hi, hknown, hlookup⟩, Option.some.inj h⟩
  · rintro ⟨hr, rfl⟩
    rw [hr.lookup]
    exact if_pos hr.known

/-- A walk over the instances of one resource is stopped if the resource lacks its schema. -/
theorem stopped?_located_eq_some_iff {e : MissingSchema} :
    Located.stopped? schemas (r.located module) = some e ↔
      r.LacksSchema schemas ∧ r.needed = e := by
  constructor
  · intro h
    obtain ⟨l, hl, he⟩ := List.exists_of_findSome?_eq_some h
    exact (missing?_located_eq_some_iff hl).1 he
  · intro h
    obtain ⟨i, is, hc⟩ := List.exists_cons_of_ne_nil h.1.instances
    have hfirst : ⟨module, r.provider, r.address, i.1, i.2⟩ ∈ r.located module := by
      simp [located, hc]
    have hmissing := (missing?_located_eq_some_iff hfirst).2 h
    rw [Located.stopped?, located, hc, List.map_cons, List.findSome?_cons, hmissing]

theorem stopped?_located_eq_none_iff :
    Located.stopped? schemas (r.located module) = none ↔ ¬ r.LacksSchema schemas := by
  rw [Option.eq_none_iff_forall_ne_some]
  constructor
  · exact fun h hr => h _ (stopped?_located_eq_some_iff.2 ⟨hr, rfl⟩)
  · exact fun hr e he => hr (stopped?_located_eq_some_iff.1 he).1

/-- Resources of an unknown mode have no attributes to decode. -/
theorem write_of_unknown (w : Walk) (module : ModulePath) {r : Resource}
    (h : r.address.mode.isKnown = false) (p : Page) :
    (r.write w module p).stopped = none ∧ (r.write w module p).diagnostics = p.diagnostics := by
  have hlacks : ¬ r.LacksSchema w.schemas := fun hr => by
    rw [hr.known] at h
    cases h
  have hstopped : Located.stopped? w.schemas (r.located module) = none :=
    stopped?_located_eq_none_iff.2 hlacks
  have hquiet : ∀ l ∈ r.located module, l.diagnostics w = [] := by
    intro l hl
    obtain ⟨i, _, rfl⟩ := List.mem_map.1 hl
    have hschema : w.schemas.lookup r.provider r.address.mode r.address.type = none := by
      cases hm : r.address.mode with
      | managed => simp [hm, Mode.isKnown] at h
      | data => simp [hm, Mode.isKnown] at h
      | unknown word => exact Schemas.lookup_unknown _ _ _ _
    simp [Located.diagnostics, Block.diagnostics, Located.block, Block.ofInstance,
      Block.decodeInstance, Located.schema?, hschema]
  rw [write_eq_listing]
  refine ⟨hstopped, ?_⟩
  rw [Located.listing, Located.reached_eq_self hstopped]
  change p.diagnostics ++ (r.located module).flatMap (Located.diagnostics w) = p.diagnostics
  rw [List.flatMap_eq_nil_iff.2 hquiet, List.append_nil]

end Resource

namespace Located

theorem stopped?_flatMap {α : Type} (schemas : Schemas) (located : α → List Located)
    (as : List α) : stopped? schemas (as.flatMap located) =
      as.findSome? fun a => stopped? schemas (located a) := by
  induction as with
  | nil => rfl
  | cons a as ih =>
    rw [List.flatMap_cons, stopped?_append, ih, List.findSome?_cons]
    cases stopped? schemas (located a) <;> rfl

end Located

namespace Module

variable {m : Module} {w : Walk}

def locatedBelow (m : Module) (key : String) : List Located :=
  ((Entries.sorted m.resources).filter fun r => r.1 < key).flatMap fun r => r.2.located m.path

structure FirstLacking (schemas : Schemas) (m : Module) (r : String × Resource) : Prop where
  mem : r ∈ m.resources
  lacks : r.2.LacksSchema schemas
  first : ∀ r' ∈ m.resources, r'.2.LacksSchema schemas → r.1 ≤ r'.1

theorem stopped?_eq_none_iff {schemas : Schemas} {m : Module} :
    Located.stopped? schemas m.located = none ↔
      ∀ r ∈ m.resources, ¬ r.2.LacksSchema schemas := by
  rw [located_eq_flatMap, Located.stopped?_flatMap, List.findSome?_eq_none_iff]
  simp only [Resource.stopped?_located_eq_none_iff, Entries.sorted, Entries.mem_sortBy]

/-- A walk over a module is stopped behind the resources with smaller keys. -/
theorem exists_firstLacking {schemas : Schemas} (hm : (Entries.keys m.resources).Nodup)
    {e : MissingSchema} (h : Located.stopped? schemas m.located = some e) :
    ∃ r, m.FirstLacking schemas r ∧ e = r.2.needed ∧
      Located.reached schemas m.located = m.locatedBelow r.1 := by
  rw [located_eq_flatMap, Located.stopped?_flatMap] at h
  obtain ⟨front, r, behind, hsorted, hr, hfront, hbehind⟩ :=
    exists_first (Entries.sorted_pairwise_lt hm) h
  have hlacks := Resource.stopped?_located_eq_some_iff.1 hr
  have hmem {d : String × Resource} : d ∈ m.resources ↔ d ∈ front ∨ d = r ∨ d ∈ behind := by
    rw [← Entries.mem_sortBy, ← Entries.sorted, hsorted, List.mem_append, List.mem_cons]
  refine ⟨r, ⟨hmem.2 (.inr (.inl rfl)), hlacks.1, fun d hd hdl => ?_⟩, hlacks.2.symm, ?_⟩
  · rcases hmem.1 hd with hd | rfl | hd
    · exact absurd hdl (Resource.stopped?_located_eq_none_iff.1 (hfront d hd).1)
    · exact String.le_refl _
    · exact Std.le_of_lt (hbehind d hd)
  · have hbelow : (Entries.sorted m.resources).filter (fun d => d.1 < r.1) = front := by
      have hrest : ∀ d ∈ r :: behind, ¬ d.1 < r.1 :=
        List.forall_mem_cons.2
          ⟨String.lt_irrefl _, fun d hd hlt => String.lt_asymm (hbehind d hd) hlt⟩
      rw [hsorted, List.filter_append,
        List.filter_eq_self.2 fun d hd => decide_eq_true (hfront d hd).2,
        List.filter_eq_nil_iff.2 fun d hd hlt => hrest d hd (of_decide_eq_true hlt),
        List.append_nil]
    have hnone : Located.stopped? schemas (front.flatMap fun d => d.2.located m.path) = none := by
      rw [Located.stopped?_flatMap]
      exact List.findSome?_eq_none_iff.2 fun d hd => (hfront d hd).1
    rw [locatedBelow, hbelow, located_eq_flatMap, hsorted, List.flatMap_append,
      List.flatMap_cons, Located.reached_append, hnone, Located.reached_append, hr]
    simp [(r.2.uniform_located m.path).reached_of_stopped hr]

theorem stopped_write (m : Module) (w : Walk) (p : Page) :
    (m.write w p).stopped = Located.stopped? w.schemas m.located := by
  cases hs : Located.stopped? w.schemas m.located with
  | none => rw [m.write_of_complete w hs]
  | some e =>
    rw [m.write_of_stopped w hs]
    exact hs

/-- A module that is stopped has written the blocks and problems of the resources with smaller
keys, and nothing else. -/
theorem write_of_missing (hm : (Entries.keys m.resources).Nodup) {p : Page} {e : MissingSchema}
    (h : (m.write w p).stopped = some e) :
    ∃ r, m.FirstLacking w.schemas r ∧ e = r.2.needed ∧
      (m.write w p).toPage = p ++ Located.pages w (m.locatedBelow r.1) := by
  rw [stopped_write] at h
  obtain ⟨r, hr, he, hreached⟩ := exists_firstLacking hm h
  exact ⟨r, hr, he, by rw [m.write_of_stopped w h, Located.listing, hreached]⟩

end Module

namespace State

/-- The modules stand in the order of their keys, and no module has two resources under one key. -/
structure Keyed (s : State) : Prop where
  modules : s.modules.Pairwise fun a b => a.1 < b.1
  resources : ∀ m ∈ s.modules, (Entries.keys m.2.resources).Nodup

theorem stopped?_located (schemas : Schemas) (s : State) :
    Located.stopped? schemas s.located =
      s.modules.findSome? fun m => Located.stopped? schemas m.2.located := by
  rw [located, moduleList, List.flatMap_map, Located.stopped?_flatMap]

/-- A run fails exactly when a resource lacks its schema, and at the first one in the order of
module keys, then resource keys. A module that fails has written the blocks and problems of the
resources with smaller keys. Resources of an unknown mode neither fail nor have problems. -/
theorem format_missing_schema {s : State} (hs : s.Keyed) (w : Walk)
    (color : List Char → List Char) :
    ((∃ e, (s.format w color).1 = .error e) ↔
        ∃ m ∈ s.modules, ∃ r ∈ m.2.resources, r.2.LacksSchema w.schemas) ∧
      (∀ e, (s.format w color).1 = .error e →
        ∃ m ∈ s.modules, ∃ r, m.2.FirstLacking w.schemas r ∧ e = r.2.needed ∧
          ∀ m' ∈ s.modules, m'.1 < m.1 → ∀ r' ∈ m'.2.resources, ¬ r'.2.LacksSchema w.schemas) ∧
      (∀ m ∈ s.modules, ∀ p e, (m.2.write w p).stopped = some e →
        ∃ r, m.2.FirstLacking w.schemas r ∧ e = r.2.needed ∧
          (m.2.write w p).toPage = p ++ Located.pages w (m.2.locatedBelow r.1)) ∧
      ∀ (r : Resource) (module : ModulePath) (p : Page), r.address.mode.isKnown = false →
        (r.write w module p).stopped = none ∧
          (r.write w module p).diagnostics = p.diagnostics := by
  simp only [format_eq_error_iff, stopped?_located]
  refine ⟨?_, ?_, fun m hm p e he => Module.write_of_missing (hs.resources m hm) he,
    fun r module p hr => r.write_of_unknown w module hr p⟩
  · rw [← Option.isSome_iff_exists, ← Option.ne_none_iff_isSome, ne_eq,
      List.findSome?_eq_none_iff]
    simp only [Module.stopped?_eq_none_iff, not_forall, not_not, exists_prop]
  · intro e he
    obtain ⟨front, m, behind, hmodules, hm, hfront, hbehind⟩ := exists_first hs.modules he
    have hmem : m ∈ s.modules := by simp [hmodules]
    obtain ⟨r, hr, hneeded, _⟩ := Module.exists_firstLacking (hs.resources m hmem) hm
    refine ⟨m, hmem, r, hr, hneeded, fun m' hm' hlt => ?_⟩
    rw [hmodules, List.mem_append, List.mem_cons] at hm'
    rcases hm' with hm' | rfl | hm'
    · exact Module.stopped?_eq_none_iff.1 (hfront m' hm').1
    · exact absurd hlt (String.lt_irrefl _)
    · exact absurd (hbehind m' hm') (String.lt_asymm hlt)

def unprovided : State :=
  let one : Entries InstanceKey Instance := [(.none, ⟨.tainted, "\x7b\x7d"⟩)]
  ⟨[("", ⟨.root, [("t.a", ⟨⟨.managed, "t", "a"⟩, "p", one⟩),
      ("u.a", ⟨⟨.managed, "u", "a"⟩, "p", []⟩)], []⟩),
    ("module.m", ⟨⟨["m"]⟩, [("u.b", ⟨⟨.managed, "u", "b"⟩, "p", one⟩),
      ("t.c", ⟨⟨.managed, "t", "c"⟩, "p", one⟩), ("data.t.c", ⟨⟨.data, "t", "c"⟩, "p", one⟩),
      ("a.t.c", ⟨⟨.unknown "a", "t", "c"⟩, "p", one⟩)], []⟩)]⟩

theorem keyed_unprovided : unprovided.Keyed where
  modules := by decide
  resources m hm := by
    rcases List.mem_cons.1 hm with rfl | hm
    · decide
    · cases List.mem_singleton.1 hm
      decide

theorem format_missing_schema_unprovided :
    let w := Walk.json ⟨[("p", ⟨[("t", .empty)], []⟩)]⟩ .truncate
    let e : MissingSchema := ⟨"p", .data, "t"⟩
    (unprovided.format w id).1 = .error e ∧
      ∃ m ∈ unprovided.modules, ∃ r, m.2.FirstLacking w.schemas r ∧ e = r.2.needed ∧
        ∀ m' ∈ unprovided.modules, m'.1 < m.1 →
          ∀ r' ∈ m'.2.resources, ¬ r'.2.LacksSchema w.schemas := by
  intro w e
  have he : (unprovided.format w id).1 = .error e := (format_eq_error_iff id).2 (by decide +kernel)
  exact ⟨he, (format_missing_schema keyed_unprovided w id).2.1 e he⟩

end State

end StateText
