import Mathlib.Data.List.TakeWhile
import StateText.Show

/-!
# What a walk writes

A walk visits located instances: the instances of a state, resource by resource and module by
module, each with what its address and its schema are found by. It reaches those in front of the
first one whose schema is missing.

The main statements say what a whole run leaves on its page. `format_of_stopped` has the error and
the problems of a run that is stopped; `format_of_complete` has the text of one that is not.
-/

namespace StateText

namespace Page

instance : Append Page := ⟨fun p q => ⟨p.chars ++ q.chars, p.diagnostics ++ q.diagnostics⟩⟩

@[simp] theorem chars_append (p q : Page) : (p ++ q).chars = p.chars ++ q.chars := rfl

@[simp] theorem diagnostics_append (p q : Page) :
    (p ++ q).diagnostics = p.diagnostics ++ q.diagnostics := rfl

@[simp] theorem chars_empty : empty.chars = [] := rfl

@[simp] theorem diagnostics_empty : empty.diagnostics = [] := rfl

theorem append_assoc (p q r : Page) : p ++ q ++ r = p ++ (q ++ r) := by
  ext1 <;> simp

@[simp] theorem append_empty (p : Page) : p ++ empty = p := by
  ext1 <;> simp

end Page

/-- A block only appends to what is on the page. -/
theorem Block.write_eq (b : Block) (mode : FailureStyle) (p : Page) :
    b.write mode p = p ++ ⟨b.chars mode, b.diagnostics⟩ := by
  unfold Block.write Block.chars Block.body Block.diagnostics
  cases b.decoded with
  | ok v => ext1 <;> simp
  | error message => cases mode <;> ext1 <;> simp

structure Located where
  module : ModulePath
  provider : String
  resource : ResourceAddress
  key : InstanceKey
  stored : Instance

namespace Located

def address (l : Located) : String := instanceAddress l.module l.resource l.key

def schema? (schemas : Schemas) (l : Located) : Option ResourceSchema :=
  schemas.lookup l.provider l.resource.mode l.resource.type

def missing? (schemas : Schemas) (l : Located) : Option MissingSchema :=
  match l.schema? schemas with
  | some _ => none
  | none =>
    if l.resource.mode.isKnown then some ⟨l.provider, l.resource.mode, l.resource.type⟩ else none

def block (w : Walk) (l : Located) : Block :=
  .ofInstance w.decode l.module l.resource (l.schema? w.schemas) (l.key, l.stored)

def chars (w : Walk) (l : Located) : List Char := (l.block w).chars w.style

def diagnostics (w : Walk) (l : Located) : List Diagnostic := (l.block w).diagnostics

def page (w : Walk) (l : Located) : Page := ⟨l.chars w, l.diagnostics w⟩

def stopped? (schemas : Schemas) (ls : List Located) : Option MissingSchema :=
  ls.findSome? (missing? schemas)

/-- The instances in front of the first one without its schema. -/
def reached (schemas : Schemas) (ls : List Located) : List Located :=
  ls.takeWhile fun l => (l.missing? schemas).isNone

@[simp] theorem stopped?_nil (schemas : Schemas) : stopped? schemas [] = none := rfl

@[simp] theorem reached_nil (schemas : Schemas) : reached schemas [] = [] := rfl

theorem stopped?_append (schemas : Schemas) (ls ks : List Located) :
    stopped? schemas (ls ++ ks) = (stopped? schemas ls).or (stopped? schemas ks) :=
  List.findSome?_append

theorem stopped?_eq_none_iff {schemas : Schemas} {ls : List Located} :
    stopped? schemas ls = none ↔ ∀ l ∈ ls, l.missing? schemas = none :=
  List.findSome?_eq_none_iff

theorem reached_eq_self {schemas : Schemas} {ls : List Located} (h : stopped? schemas ls = none) :
    reached schemas ls = ls := by
  apply List.takeWhile_eq_self_iff.2
  intro l hl
  rw [stopped?_eq_none_iff.1 h l hl]
  rfl

theorem reached_append (schemas : Schemas) (ls ks : List Located) :
    reached schemas (ls ++ ks) =
      if (stopped? schemas ls).isSome then reached schemas ls else ls ++ reached schemas ks := by
  induction ls with
  | nil => rfl
  | cons l ls ih =>
    cases h : l.missing? schemas with
    | some e => simp [reached, stopped?, h]
    | none =>
      have hs : stopped? schemas (l :: ls) = stopped? schemas ls := by simp [stopped?, h]
      have hr (xs : List Located) : reached schemas (l :: xs) = l :: reached schemas xs := by
        simp [reached, h]
      rw [List.cons_append, hr, hr, hs, ih]
      split <;> rfl

def pages (w : Walk) (ls : List Located) : Page :=
  ⟨ls.flatMap (chars w), ls.flatMap (diagnostics w)⟩

@[simp] theorem chars_pages (w : Walk) (ls : List Located) :
    (pages w ls).chars = ls.flatMap (chars w) := rfl

@[simp] theorem diagnostics_pages (w : Walk) (ls : List Located) :
    (pages w ls).diagnostics = ls.flatMap (diagnostics w) := rfl

@[simp] theorem pages_nil (w : Walk) : pages w [] = .empty := rfl

theorem pages_cons (w : Walk) (l : Located) (ls : List Located) :
    pages w (l :: ls) = l.page w ++ pages w ls := rfl

theorem pages_append (w : Walk) (ls ks : List Located) :
    pages w (ls ++ ks) = pages w ls ++ pages w ks := by
  ext1 <;> simp

def listing (w : Walk) (ls : List Located) (p : Page) : Listing :=
  ⟨p ++ pages w (reached w.schemas ls), stopped? w.schemas ls⟩

end Located

open Located

/-- If each part lists its instances, then so do all parts together. -/
theorem Listing.each_eq_listing {α : Type} {w : Walk} {f : α → Page → Listing}
    {located : α → List Located} (h : ∀ a p, f a p = Located.listing w (located a) p)
    (as : List α) (p : Page) : each f as p = Located.listing w (as.flatMap located) p := by
  induction as generalizing p with
  | nil => simp [each, Located.listing]
  | cons a as ih =>
    rw [each, h, List.flatMap_cons]
    cases hs : stopped? w.schemas (located a) with
    | some e => simp [Located.listing, stopped?_append, reached_append, hs]
    | none =>
      simp only [Located.listing, hs, ih]
      rw [reached_append, stopped?_append, hs, reached_eq_self hs]
      simp [pages_append, Page.append_assoc]

namespace Resource

def located (module : ModulePath) (r : Resource) : List Located :=
  r.instances.map fun i => ⟨module, r.provider, r.address, i.1, i.2⟩

variable (w : Walk) (module : ModulePath) (r : Resource)

theorem foldl_write_eq (schema : Option ResourceSchema)
    (hs : schema = w.schemas.lookup r.provider r.address.mode r.address.type) (p : Page) :
    r.instances.foldl (fun p i =>
      (Block.ofInstance w.decode module r.address schema i).write w.style p) p =
        p ++ pages w (r.located module) := by
  subst hs
  unfold located
  induction r.instances generalizing p with
  | nil => simp
  | cons i is ih =>
    rw [List.foldl_cons, ih, Block.write_eq, List.map_cons, pages_cons, Page.append_assoc]
    rfl

/-- All instances of a resource need the same schema. -/
theorem missing?_of_mem_located {r : Resource} {module : ModulePath} {schemas : Schemas}
    {l : Located} (hl : l ∈ r.located module) :
    l.missing? schemas =
      match r.schema schemas with
      | .error e => some e
      | .ok _ => none := by
  obtain ⟨i, _, rfl⟩ := List.mem_map.1 hl
  unfold Located.missing? Located.schema? schema
  cases schemas.lookup r.provider r.address.mode r.address.type with
  | some block => rfl
  | none => cases r.address.mode.isKnown <;> rfl

theorem write_eq_listing (p : Page) :
    r.write w module p = Located.listing w (r.located module) p := by
  by_cases hi : r.instances = []
  · simp [write, located, hi, Located.listing]
  obtain ⟨i, is, hc⟩ := List.exists_cons_of_ne_nil hi
  have hmem : ∀ l ∈ r.located module, l.missing? w.schemas = _ :=
    fun l hl => missing?_of_mem_located hl
  rw [write, if_neg hi]
  cases hs : r.schema w.schemas with
  | error e =>
    have hfirst := hmem ⟨module, r.provider, r.address, i.1, i.2⟩ (by simp [located, hc])
    rw [hs] at hfirst
    simp [Located.listing, located, hc, reached, stopped?, hfirst]
  | ok schema =>
    have hnone : stopped? w.schemas (r.located module) = none := by
      apply stopped?_eq_none_iff.2
      intro l hl
      rw [hmem l hl, hs]
    have hlookup : schema = w.schemas.lookup r.provider r.address.mode r.address.type := by
      unfold Resource.schema at hs
      split at hs
      next block hb => rw [hb]; exact (Except.ok.inj hs).symm
      next hb =>
        rw [hb]
        split_ifs at hs
        exact (Except.ok.inj hs).symm
    rw [Located.listing, hnone, reached_eq_self hnone, ← foldl_write_eq w module r schema hlookup]

end Resource

namespace Module

def located (m : Module) : List Located := m.sortedResources.flatMap (Resource.located m.path)

theorem located_eq_flatMap (m : Module) :
    m.located = (Entries.sorted m.resources).flatMap fun r => r.2.located m.path := by
  rw [located, sortedResources, List.flatMap_map]

theorem mem_located {m : Module} {l : Located} :
    l ∈ m.located ↔ ∃ r ∈ m.resources, l ∈ r.2.located m.path := by
  simp only [located_eq_flatMap, List.mem_flatMap, Entries.sorted, Entries.mem_sortBy]

def text (w : Walk) (m : Module) : List Char := m.located.flatMap (Located.chars w) ++ resetLine

variable (w : Walk) (m : Module)

theorem write_of_stopped {e : MissingSchema} (h : stopped? w.schemas m.located = some e)
    (p : Page) : m.write w p = Located.listing w m.located p := by
  have he := Listing.each_eq_listing (Resource.write_eq_listing w m.path) m.sortedResources p
  rw [write, he]
  simp only [Located.listing]
  rw [← located, h]

theorem write_of_complete (h : stopped? w.schemas m.located = none) (p : Page) :
    m.write w p = ⟨p ++ ⟨m.text w, m.located.flatMap (Located.diagnostics w)⟩, none⟩ := by
  have he := Listing.each_eq_listing (Resource.write_eq_listing w m.path) m.sortedResources p
  rw [write, he]
  simp only [Located.listing]
  rw [← located, h, reached_eq_self h]
  change Listing.mk _ _ = Listing.mk _ _
  congr 1
  ext1 <;> simp [text]

end Module

namespace State

def located (s : State) : List Located := s.moduleList.flatMap Module.located

/-- The instances of a state are those of its resources. -/
theorem mem_located {s : State} {l : Located} :
    l ∈ s.located ↔ ∃ m ∈ s.modules, ∃ r ∈ m.2.resources, l ∈ r.2.located m.2.path := by
  simp only [located, moduleList, List.flatMap_map, List.mem_flatMap, Module.mem_located]

/-- The text of a state that is not stopped, before its ends are trimmed. -/
def text (w : Walk) (s : State) : List Char :=
  Markup.Code.reset.token ++ s.moduleList.flatMap (Module.text w) ++ s.outputChars

variable (w : Walk)

/-- The run over all modules: whatever happens, it reports what it reaches. -/
theorem each_module_spec (ms : List Module) (p : Page) :
    let l := Listing.each (Module.write w) ms p
    let ls := ms.flatMap Module.located
    l.stopped = stopped? w.schemas ls ∧
      l.diagnostics = p.diagnostics ++ (reached w.schemas ls).flatMap (Located.diagnostics w) ∧
      (l.stopped = none → l.chars = p.chars ++ ms.flatMap (Module.text w)) := by
  induction ms generalizing p with
  | nil => simp [Listing.each]
  | cons m ms ih =>
    dsimp only
    rw [Listing.each, List.flatMap_cons, stopped?_append, reached_append]
    cases hs : stopped? w.schemas m.located with
    | some e => simp [m.write_of_stopped w hs, Located.listing, hs]
    | none =>
      rw [m.write_of_complete w hs]
      obtain ⟨hstop, hdiag, htext⟩ :=
        ih (p ++ ⟨m.text w, m.located.flatMap (Located.diagnostics w)⟩)
      refine ⟨hstop, ?_, ?_⟩
      · simpa [List.append_assoc] using hdiag
      · simpa [List.append_assoc] using htext

variable {w} {s : State} (color : List Char → List Char)

/-- A walk that is stopped has reported the instances that it reached. -/
theorem format_of_stopped {e : MissingSchema} (h : stopped? w.schemas s.located = some e) :
    s.format w color =
      (.error e, (reached w.schemas s.located).flatMap (Located.diagnostics w)) := by
  have hne : s.isEmpty = false := by
    cases hm : s.modules with
    | nil => simp [located, moduleList, hm] at h
    | cons m ms => simp [isEmpty, hm]
  obtain ⟨hstop, hdiag, _⟩ :=
    each_module_spec w s.moduleList (Page.empty.write Markup.Code.reset.token)
  rw [← located, h] at hstop
  simp only [format, hne, hstop, hdiag]
  simp [located]

/-- A walk that is not stopped shows and reports every instance. -/
theorem format_of_complete (hne : s.isEmpty = false) (h : stopped? w.schemas s.located = none) :
    s.format w color =
      (.ok (String.ofList (Text.trim (color (Text.trim (s.text w))))),
        s.located.flatMap (Located.diagnostics w)) := by
  obtain ⟨hstop, hdiag, htext⟩ :=
    each_module_spec w s.moduleList (Page.empty.write Markup.Code.reset.token)
  rw [← located, h] at hstop
  rw [← located, reached_eq_self h] at hdiag
  simp only [format, hne, hstop]
  simp [htext hstop, hdiag, text]

/-- A state without modules says so, whatever else is asked. -/
theorem format_of_isEmpty (h : s.isEmpty = true) :
    s.format w color = (.ok emptyMessage, []) := by
  simp [format, h]

/-- The error of a run does not depend on colors. -/
theorem format_eq_error_iff {e : MissingSchema} :
    (s.format w color).1 = .error e ↔ stopped? w.schemas s.located = some e := by
  cases hs : stopped? w.schemas s.located with
  | some d => simp [format_of_stopped color hs]
  | none =>
    cases hne : s.isEmpty with
    | true => simp [format_of_isEmpty color hne]
    | false => simp [format_of_complete color hne hs]

theorem complete_of_format_eq_ok {t : String} (h : (s.format w color).1 = .ok t) :
    stopped? w.schemas s.located = none := by
  by_contra hs
  obtain ⟨e, he⟩ := Option.ne_none_iff_exists'.1 hs
  rw [(format_eq_error_iff color).2 he] at h
  cases h

theorem located_of_isEmpty (h : s.isEmpty = true) : s.located = [] := by
  have hm : s.modules = [] := by simpa [isEmpty] using h
  simp [located, moduleList, hm]

/-- A run reports what it reaches, stopped or not. -/
theorem format_diagnostics :
    (s.format w color).2 = (reached w.schemas s.located).flatMap (Located.diagnostics w) := by
  cases hs : stopped? w.schemas s.located with
  | some e => rw [format_of_stopped color hs]
  | none =>
    rw [reached_eq_self hs]
    cases hne : s.isEmpty with
    | true => rw [format_of_isEmpty color hne, located_of_isEmpty hne, List.flatMap_nil]
    | false => rw [format_of_complete color hne hs]

/-- The parts of a state and of a walk over it that the run depends on. -/
theorem format_congr {s s' : State} {w w' : Walk} (color : List Char → List Char)
    (hempty : s.isEmpty = s'.isEmpty)
    (hstop : stopped? w.schemas s.located = stopped? w'.schemas s'.located)
    (hreports : (reached w.schemas s.located).flatMap (Located.diagnostics w) =
      (reached w'.schemas s'.located).flatMap (Located.diagnostics w'))
    (htext : s.text w = s'.text w') : s.format w color = s'.format w' color := by
  refine Prod.ext ?_ (by rw [format_diagnostics, hreports, format_diagnostics])
  cases hne : s.isEmpty with
  | true => rw [format_of_isEmpty color hne, format_of_isEmpty color (hempty.symm.trans hne)]
  | false =>
    cases hs : stopped? w.schemas s.located with
    | some e =>
      rw [(format_eq_error_iff color).2 hs, (format_eq_error_iff color).2 (hstop.symm.trans hs)]
    | none =>
      rw [format_of_complete color hne hs,
        format_of_complete color (hempty.symm.trans hne) (hstop.symm.trans hs), htext]

end State

end StateText
