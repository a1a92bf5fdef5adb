import Mathlib.Data.List.Perm.Basic
import StateText.Proofs.Distinct
import StateText.Proofs.Ends

/-!
# Runs over another order

Resources, instances, outputs and the entries of values are held in orders that mean nothing. A
state is reordered when it differs only in these. `format_reordered` compares the two runs: they
end alike, and what they write differs at most in the order of the instances of one resource.
-/

namespace StateText

namespace Entries

variable {α : Type} {R : α → α → Prop}

def Alike {κ : Type} (R : α → α → Prop) (d e : κ × α) : Prop := d.1 = e.1 ∧ R d.2 e.2

def Reordered (R : α → α → Prop) (es ds : Entries String α) : Prop :=
  (keys es).Nodup ∧ ∃ shuffled, es.Perm shuffled ∧ List.Forall₂ (Alike R) shuffled ds

theorem forall₂_insertBy {κ : Type} (le : κ → κ → Bool) {d e : κ × α} (hde : Alike R d e)
    {ds es : Entries κ α} (h : List.Forall₂ (Alike R) ds es) :
    List.Forall₂ (Alike R) (insertBy le d ds) (insertBy le e es) := by
  induction h with
  | nil => exact .cons hde .nil
  | cons hhead htail ih =>
    rw [insertBy, insertBy, hde.1, hhead.1]
    split
    · exact .cons hde (.cons hhead htail)
    · exact .cons hhead ih

theorem forall₂_sortBy {κ : Type} (le : κ → κ → Bool) {ds es : Entries κ α}
    (h : List.Forall₂ (Alike R) ds es) :
    List.Forall₂ (Alike R) (sortBy le ds) (sortBy le es) := by
  induction h with
  | nil => exact .nil
  | cons hhead _ ih => exact forall₂_insertBy le hhead ih

/-- Listed by name, the related values stand at the same places. -/
theorem Reordered.sorted {es ds : Entries String α} (h : Reordered R es ds) :
    List.Forall₂ (Alike R) (sorted es) (sorted ds) := by
  obtain ⟨hn, shuffled, hp, hall⟩ := h
  rw [sorted_eq_of_perm hp hn]
  exact forall₂_sortBy _ hall

theorem Reordered.eq_nil_iff {es ds : Entries String α} (h : Reordered R es ds) :
    es = [] ↔ ds = [] := by
  obtain ⟨_, shuffled, hp, hall⟩ := h
  rw [← List.length_eq_zero_iff, ← List.length_eq_zero_iff, hp.length_eq, hall.length_eq]

theorem forall₂_get? {κ : Type} [DecidableEq κ] (key : κ) {ds es : Entries κ α}
    (h : List.Forall₂ (Alike R) ds es) : Option.Rel R (get? key ds) (get? key es) := by
  induction h with
  | nil => exact .none
  | cons hhead _ ih =>
    rw [get?_cons, get?_cons, hhead.1]
    split
    · exact .some hhead.2
    · exact ih

end Entries

structure Resource.Reordered (r r' : Resource) : Prop where
  address_eq : r.address = r'.address
  provider_eq : r.provider = r'.provider
  instances : r.instances.Perm r'.instances

structure Output.Reordered (o o' : Output) : Prop where
  value : o.value.Reordered o'.value
  sensitive_eq : o.sensitive = o'.sensitive

structure Module.Reordered (m m' : Module) : Prop where
  path_eq : m.path = m'.path
  resources : Entries.Reordered Resource.Reordered m.resources m'.resources
  outputs : Entries.Reordered Output.Reordered m.outputs m'.outputs

/-- The same modules, which are kept in order, with all that they hold in another order. -/
def State.Reordered (s s' : State) : Prop :=
  List.Forall₂ (Entries.Alike Module.Reordered) s.modules s'.modules

inductive Decoder.Agree : Except DecodeError Value → Except DecodeError Value → Prop
  | ok {v v' : Value} (value : v.Reordered v') : Agree (.ok v) (.ok v')
  | error (e : DecodeError) : Agree (.error e) (.error e)

structure Walk.Reordered (w w' : Walk) : Prop where
  schemas_eq : w.schemas = w'.schemas
  style_eq : w.style = w'.style
  decode : ∀ type text, Decoder.Agree (w.decode type text) (w'.decode type text)

/-! ### Walks -/

namespace Walk.Reordered

variable {w w' : Walk}

/-- The block of an instance does not depend on the order in which its values are decoded. -/
theorem block (h : w.Reordered w') (l : Located) :
    (l.block w).chars w.style = (l.block w').chars w'.style ∧
      (l.block w).diagnostics = (l.block w').diagnostics := by
  unfold Located.block Block.ofInstance Block.decodeInstance Block.chars Block.header
    Block.opening Block.body Block.diagnostics
  rw [← h.schemas_eq, ← h.style_eq]
  cases hs : l.schema? w.schemas with
  | none => exact ⟨rfl, rfl⟩
  | some schema =>
    have hd := h.decode schema.objectType l.stored.attributes
    dsimp only
    generalize w.decode schema.objectType l.stored.attributes = d at hd ⊢
    generalize w'.decode schema.objectType l.stored.attributes = d' at hd ⊢
    cases hd with
    | error e => exact ⟨rfl, rfl⟩
    | ok hv =>
      refine ⟨?_, rfl⟩
      simp only [Except.mapError, Block.attributeLines_reordered hv]

/-- Decoding gives no map or object a key twice, so the walk over stored JSON is one of these. -/
theorem json (schemas : Schemas) (style : FailureStyle) :
    (Walk.json schemas style).Reordered (Walk.json schemas style) where
  schemas_eq := rfl
  style_eq := rfl
  decode type text := by
    change Decoder.Agree (Decode.decode type text) (Decode.decode type text)
    cases h : Decode.decode type text with
    | error e => exact .error e
    | ok v => exact .ok (Decode.reordered_of_decode h)

theorem chars_eq (h : w.Reordered w') : Located.chars w = Located.chars w' :=
  funext fun l => (h.block l).1

theorem diagnostics_eq (h : w.Reordered w') : Located.diagnostics w = Located.diagnostics w' :=
  funext fun l => (h.block l).2

end Walk.Reordered

/-- Reordered walks do the same. -/
theorem State.format_eq_of_reordered {w w' : Walk} (h : w.Reordered w')
    (color : List Char → List Char) (s : State) : s.format w color = s.format w' color := by
  have hmodule : Module.text w = Module.text w' :=
    funext fun m => by rw [Module.text, Module.text, h.chars_eq]
  have htext : s.text w = s.text w' := by
    rw [text, text, hmodule]
  refine format_congr color rfl ?_ ?_ htext
  · rw [h.schemas_eq]
  · rw [h.schemas_eq, h.diagnostics_eq]

/-! ### States -/

namespace Located

structure Interchangeable (ls ks : List Located) : Prop where
  perm : ls.Perm ks
  stopped?_eq : ∀ schemas, stopped? schemas ls = stopped? schemas ks

def Uniform (ls : List Located) : Prop :=
  ∀ schemas, ∀ l ∈ ls, ∀ k ∈ ls, l.missing? schemas = k.missing? schemas

def reachedGroups (schemas : Schemas) (gs : List (List Located)) : List (List Located) :=
  gs.takeWhile fun g => (stopped? schemas g).isNone

namespace Uniform

variable {ls : List Located}

theorem stopped?_eq_none (h : Uniform ls) {schemas : Schemas} {l : Located} (hl : l ∈ ls)
    (hm : l.missing? schemas = none) : stopped? schemas ls = none :=
  stopped?_eq_none_iff.2 fun k hk => (h schemas k hk l hl).trans hm

theorem reached_of_stopped (h : Uniform ls) {schemas : Schemas} {e : MissingSchema}
    (hs : stopped? schemas ls = some e) : reached schemas ls = [] := by
  cases ls with
  | nil => rfl
  | cons l ls =>
    cases hm : l.missing? schemas with
    | none =>
      rw [h.stopped?_eq_none List.mem_cons_self hm] at hs
      cases hs
    | some _ => simp [reached, hm]

theorem interchangeable {ks : List Located} (h : Uniform ls) (hp : ls.Perm ks) :
    Interchangeable ls ks where
  perm := hp
  stopped?_eq schemas := by
    have hks : Uniform ks := fun schemas l hl k hk =>
      h schemas l (hp.mem_iff.2 hl) k (hp.mem_iff.2 hk)
    cases ls with
    | nil => rw [hp.nil_eq]
    | cons l ls =>
      have hl : l ∈ ks := hp.mem_iff.1 List.mem_cons_self
      cases hm : l.missing? schemas with
      | none => rw [h.stopped?_eq_none List.mem_cons_self hm, hks.stopped?_eq_none hl hm]
      | some e =>
        cases ks with
        | nil => exact absurd hl List.not_mem_nil
        | cons k ks =>
          have hk : k.missing? schemas = some e := (hks schemas k List.mem_cons_self l hl).trans hm
          simp [stopped?, hm, hk]

end Uniform

/-- A walk never stops inside a group. -/
theorem reached_flatten {gs : List (List Located)} (h : ∀ g ∈ gs, Uniform g) (schemas : Schemas) :
    reached schemas gs.flatten = (reachedGroups schemas gs).flatten := by
  induction gs with
  | nil => rfl
  | cons g gs ih =>
    have hrest := ih fun k hk => h k (List.mem_cons_of_mem _ hk)
    rw [List.flatten_cons, reached_append, hrest]
    cases hs : stopped? schemas g with
    | none => simp [reachedGroups, hs]
    | some e => simp [reachedGroups, hs, (h g List.mem_cons_self).reached_of_stopped hs]

namespace Interchangeable

theorem append {ls ls' ks ks' : List Located} (h : Interchangeable ls ks)
    (h' : Interchangeable ls' ks') : Interchangeable (ls ++ ls') (ks ++ ks') where
  perm := h.perm.append h'.perm
  stopped?_eq schemas := by
    rw [stopped?_append, stopped?_append, h.stopped?_eq, h'.stopped?_eq]

variable {gs hs : List (List Located)}

theorem flatten (h : List.Forall₂ Interchangeable gs hs) :
    Interchangeable gs.flatten hs.flatten := by
  induction h with
  | nil => exact ⟨.refl _, fun _ => rfl⟩
  | cons hhead _ ih => exact hhead.append ih

theorem reachedGroups (h : List.Forall₂ Interchangeable gs hs) (schemas : Schemas) :
    List.Forall₂ List.Perm (reachedGroups schemas gs) (reachedGroups schemas hs) := by
  induction h with
  | nil => exact .nil
  | cons hhead _ ih =>
    rw [Located.reachedGroups, Located.reachedGroups, List.takeWhile_cons, List.takeWhile_cons,
      hhead.stopped?_eq]
    split
    · exact .cons hhead.perm ih
    · exact .nil

end Interchangeable

def sheet (w : Walk) (groups : List (List (List Located))) (outputs : List Char) : Page where
  chars := Markup.Code.reset.token ++
    groups.flatMap (fun gs => gs.flatten.flatMap (chars w) ++ resetLine) ++ outputs
  diagnostics := groups.flatten.flatten.flatMap (diagnostics w)

end Located

def Page.shown (p : Page) : Except MissingSchema String × List Diagnostic :=
  (.ok (String.ofList p.chars.dropLast), p.diagnostics)

namespace Resource

theorem uniform_located (r : Resource) (module : ModulePath) :
    Located.Uniform (r.located module) := by
  intro schemas l hl k hk
  rw [missing?_of_mem_located hl, missing?_of_mem_located hk]

theorem Reordered.interchangeable {r r' : Resource} (h : r.Reordered r') (module : ModulePath) :
    Located.Interchangeable (r.located module) (r'.located module) := by
  apply (r.uniform_located module).interchangeable
  rw [located, located, h.address_eq, h.provider_eq]
  exact h.instances.map _

end Resource

/-- What related elements are mapped to. -/
theorem map_eq_of_forall₂ {α β γ : Type} {R : α → β → Prop} {f : α → γ} {g : β → γ}
    {as : List α} {bs : List β} (h : List.Forall₂ R as bs)
    (heq : ∀ a ∈ as, ∀ b, R a b → f a = g b) : as.map f = bs.map g := by
  induction h with
  | nil => rfl
  | @cons a b as bs hab _ ih =>
    rw [List.map_cons, List.map_cons, heq a List.mem_cons_self b hab,
      ih fun a ha => heq a (List.mem_cons_of_mem _ ha)]

theorem eq_of_forall₂ {α : Type} {R : α → α → Prop} {as bs : List α} (h : List.Forall₂ R as bs)
    (heq : ∀ a ∈ as, ∀ b, R a b → a = b) : as = bs := by
  have hmap : as.map id = bs.map id := map_eq_of_forall₂ h heq
  rwa [List.map_id, List.map_id] at hmap

namespace Module

def groups (m : Module) : List (List Located) := m.sortedResources.map (Resource.located m.path)

theorem flatten_groups (m : Module) : m.groups.flatten = m.located := rfl

theorem Reordered.groups {m m' : Module} (h : m.Reordered m') :
    List.Forall₂ Located.Interchangeable m.groups m'.groups := by
  have hs := h.resources.sorted
  rw [Module.groups, Module.groups, sortedResources, sortedResources, h.path_eq,
    List.forall₂_map_left_iff, List.forall₂_map_right_iff, List.forall₂_map_left_iff,
    List.forall₂_map_right_iff]
  exact hs.imp fun _ _ hr => hr.2.interchangeable _

theorem Reordered.outputChars_eq {m m' : Module} (h : m.Reordered m') :
    m.outputChars = m'.outputChars := by
  have hmap : (Entries.sorted m.outputs).map outputLine =
      (Entries.sorted m'.outputs).map outputLine := by
    refine map_eq_of_forall₂ h.outputs.sorted fun o _ o' ho => ?_
    rw [outputLine, outputLine, ho.1, ho.2.value.chars_eq]
  rw [outputChars, outputChars, List.flatMap_def, List.flatMap_def, hmap]
  simp only [h.outputs.eq_nil_iff]

end Module

namespace State

def groups (s : State) : List (List (List Located)) := s.moduleList.map Module.groups

theorem flatten_groups (s : State) : s.groups.flatten.flatten = s.located := by
  rw [groups, located, List.flatMap_def, List.flatten_flatten, List.map_map]
  rfl

theorem uniform_of_mem_groups {s : State} : ∀ g ∈ s.groups.flatten, Located.Uniform g := by
  intro g hg
  obtain ⟨gs, hgs, hg⟩ := List.mem_flatten.1 hg
  obtain ⟨m, _, rfl⟩ := List.mem_map.1 hgs
  obtain ⟨r, _, rfl⟩ := List.mem_map.1 hg
  exact r.uniform_located m.path

/-- What a run reports is about whole groups. -/
theorem format_diagnostics_groups (w : Walk) (s : State) (color : List Char → List Char) :
    (s.format w color).2 = (Located.reachedGroups w.schemas s.groups.flatten).flatten.flatMap
      (Located.diagnostics w) := by
  rw [format_diagnostics, ← flatten_groups, Located.reached_flatten uniform_of_mem_groups]

theorem text_eq_sheet (w : Walk) (s : State) :
    s.text w = (Located.sheet w s.groups s.outputChars).chars := by
  simp only [text, Located.sheet, groups, List.flatMap_map, Module.flatten_groups]
  rfl

/-- What is shown of a state is a sheet of its groups. -/
theorem format_eq_sheet {w : Walk} {s : State} (hne : s.isEmpty = false)
    (hs : Located.stopped? w.schemas s.located = none) :
    s.format w id = (Located.sheet w s.groups s.outputChars).shown := by
  rw [format_id_of_complete hne hs, text_eq_sheet, ← flatten_groups]
  rfl

namespace Reordered

variable {s s' : State}

theorem isEmpty_eq (h : s.Reordered s') : s.isEmpty = s'.isEmpty := by
  rw [isEmpty, isEmpty, Bool.eq_iff_iff, List.isEmpty_iff_length_eq_zero,
    List.isEmpty_iff_length_eq_zero, h.length_eq]

theorem groups (h : s.Reordered s') :
    List.Forall₂ (List.Forall₂ Located.Interchangeable) s.groups s'.groups := by
  rw [State.groups, State.groups, moduleList, moduleList, List.forall₂_map_left_iff,
    List.forall₂_map_right_iff, List.forall₂_map_left_iff, List.forall₂_map_right_iff]
  exact h.imp fun _ _ hm => hm.2.groups

theorem located (h : s.Reordered s') : Located.Interchangeable s.located s'.located := by
  rw [← flatten_groups, ← flatten_groups]
  exact .flatten (List.rel_flatten h.groups)

theorem outputChars_eq (h : s.Reordered s') : s.outputChars = s'.outputChars := by
  have hr : Option.Rel Module.Reordered s.root? s'.root? := Entries.forall₂_get? _ h
  unfold outputChars
  generalize s.root? = root at hr ⊢
  generalize s'.root? = root' at hr ⊢
  cases hr with
  | none => rfl
  | some hm => exact hm.outputChars_eq

theorem groups_eq (h : s.Reordered s')
    (single : ∀ m ∈ s.modules, ∀ r ∈ m.2.resources, r.2.instances.length ≤ 1) :
    s.groups = s'.groups := by
  have hsingle : ∀ gs ∈ s.groups, ∀ g ∈ gs, g.length ≤ 1 := by
    intro gs hgs g hg
    obtain ⟨m, hm, rfl⟩ := List.mem_map.1 hgs
    obtain ⟨e, he, rfl⟩ := List.mem_map.1 hm
    obtain ⟨r, hr, rfl⟩ := List.mem_map.1 hg
    obtain ⟨d, hd, rfl⟩ := List.mem_map.1 hr
    rw [Resource.located, List.length_map]
    exact single e he d (Entries.mem_sortBy.1 hd)
  refine eq_of_forall₂ h.groups fun gs hgs hs hgh => eq_of_forall₂ hgh fun g hg k hgk => ?_
  have hlength := hsingle gs hgs g hg
  cases g with
  | nil => exact hgk.perm.nil_eq
  | cons l ls =>
    have hnil : ls = [] := List.length_eq_zero_iff.1 (by simpa using hlength)
    subst hnil
    exact List.singleton_perm.1 hgk.perm

end Reordered

/-- Two runs over one state that meet its entries in different orders end with the same error or
both without one. They report on the same instances, and without an error they show the same ones;
these may stand in different orders within one resource, and where no resource has two, the runs do
not differ. -/
theorem format_reordered {w w' : Walk} {s s' : State} (hw : w.Reordered w')
    (hs : s.Reordered s') :
    (∀ color e, (s.format w color).1 = .error e ↔ (s'.format w' color).1 = .error e) ∧
      (∃ gs gs', gs <+: s.groups.flatten ∧ gs' <+: s'.groups.flatten ∧
        List.Forall₂ List.Perm gs gs' ∧ ∀ color,
          (s.format w color).2 = gs.flatten.flatMap (Located.diagnostics w) ∧
          (s'.format w' color).2 = gs'.flatten.flatMap (Located.diagnostics w)) ∧
      (s.isEmpty = false → (∃ t, (s.format w id).1 = .ok t) →
        List.Forall₂ (List.Forall₂ List.Perm) s.groups s'.groups ∧
          s.format w id = (Located.sheet w s.groups s.outputChars).shown ∧
          s'.format w' id = (Located.sheet w s'.groups s.outputChars).shown) ∧
      ((∀ m ∈ s.modules, ∀ r ∈ m.2.resources, r.2.instances.length ≤ 1) →
        ∀ color, s.format w color = s'.format w' color) := by
  have hstopped : Located.stopped? w.schemas s.located = Located.stopped? w.schemas s'.located :=
    hs.located.stopped?_eq w.schemas
  have hwalk (color : List Char → List Char) : s'.format w' color = s'.format w color :=
    (format_eq_of_reordered hw color s').symm
  refine ⟨fun color e => ?_, ⟨_, _, List.takeWhile_prefix _, List.takeWhile_prefix _,
    Located.Interchangeable.reachedGroups (List.rel_flatten hs.groups) w.schemas, fun color => ?_⟩,
    fun hne ⟨t, ht⟩ => ⟨?_, ?_, ?_⟩, fun single color => ?_⟩
  · rw [hwalk, format_eq_error_iff, format_eq_error_iff, hstopped]
  · rw [hwalk]
    exact ⟨format_diagnostics_groups w s color, format_diagnostics_groups w s' color⟩
  · exact hs.groups.imp fun _ _ hgs => hgs.imp fun _ _ hg => hg.perm
  · exact format_eq_sheet hne (complete_of_format_eq_ok id ht)
  · have hcomplete := hstopped ▸ complete_of_format_eq_ok id ht
    rw [hwalk, hs.outputChars_eq]
    exact format_eq_sheet (hs.isEmpty_eq ▸ hne) hcomplete
  · have hgroups := hs.groups_eq single
    have hlocated : s.located = s'.located := by
      rw [← flatten_groups, ← flatten_groups, hgroups]
    have htext : s.text w = s'.text w := by
      rw [text_eq_sheet, text_eq_sheet, hgroups, hs.outputChars_eq]
    rw [hwalk]
    cases hstop : Located.stopped? w.schemas s.located with
    | some e =>
      rw [format_of_stopped color hstop, format_of_stopped color (hlocated ▸ hstop), hlocated]
    | none =>
      cases hne : s.isEmpty with
      | true => rw [format_of_isEmpty color hne, format_of_isEmpty color (hs.isEmpty_eq ▸ hne)]
      | false =>
        rw [format_of_complete color hne hstop,
          format_of_complete color (hs.isEmpty_eq ▸ hne) (hlocated ▸ hstop), hlocated, htext]

def small (instances : Entries InstanceKey Instance) (x y : String × Output) : State :=
  ⟨[("", ⟨.root, [("t.a", ⟨⟨.managed, "t", "a"⟩, "p", instances⟩)], [x, y]⟩)]⟩

theorem reordered_small {instances instances' : Entries InstanceKey Instance}
    {x x' y y' : String × Output} (hi : instances.Perm instances')
    (hx : Entries.Alike Output.Reordered x x') (hy : Entries.Alike Output.Reordered y y')
    (hne : x.1 ≠ y.1) :
    (small instances x y).Reordered (small instances' y' x') := by
  have hresources : Entries.Reordered Resource.Reordered
      [("t.a", ⟨⟨.managed, "t", "a"⟩, "p", instances⟩)]
      [("t.a", ⟨⟨.managed, "t", "a"⟩, "p", instances'⟩)] :=
    ⟨by simp, _, .refl _, .cons ⟨rfl, rfl, rfl, hi⟩ .nil⟩
  have houtputs : Entries.Reordered Output.Reordered [x, y] [y', x'] :=
    ⟨by simp [hne], [y, x], .swap y x [], .cons hy (.cons hx .nil)⟩
  exact .cons ⟨rfl, rfl, hresources, houtputs⟩ .nil

/-- Two instances in either order, with outputs and the entries of a map in either order. -/
theorem format_reordered_small :
    let w := Walk.json ⟨[("p", ⟨[("t", .empty)], []⟩)]⟩ .truncate
    let i : InstanceKey × Instance := (.int 0, ⟨.ready, "\x7b\x7d"⟩)
    let j : InstanceKey × Instance := (.int 1, ⟨.tainted, "none"⟩)
    let x : String × Output := ("x", ⟨.map [("k", .null), ("l", .bool true)], false⟩)
    let x' : String × Output := ("x", ⟨.map [("l", .bool true), ("k", .null)], false⟩)
    let y : String × Output := ("y", ⟨.null, true⟩)
    let s := small [i, j] x y
    let s' := small [j, i] y x'
    (List.Forall₂ (List.Forall₂ List.Perm) s.groups s'.groups ∧
      s.format w id = (Located.sheet w s.groups s.outputChars).shown ∧
      s'.format w id = (Located.sheet w s'.groups s.outputChars).shown) ∧
      ∀ color, (small [i] x y).format w color = (small [i] y x').format w color := by
  intro w i j x x' y s s'
  have hx : Entries.Alike Output.Reordered x x' :=
    ⟨rfl, .map (by decide) (.swap _ _ []) (.cons _ (.bool true) (.cons _ .null .nil)), rfl⟩
  have hy : Entries.Alike Output.Reordered y y := ⟨rfl, .null, rfl⟩
  have hw : w.Reordered w := .json _ _
  have hok : ∃ t, (s.format w id).1 = .ok t :=
    ⟨_, congrArg Prod.fst (format_id_of_complete rfl (by rfl))⟩
  constructor
  · exact (format_reordered hw (reordered_small (.swap j i []) hx hy (by decide))).2.2.1 rfl hok
  · refine (format_reordered hw (reordered_small (.refl [i]) hx hy (by decide))).2.2.2 ?_
    intro m hm r hr
    cases List.mem_singleton.1 hm
    cases List.mem_singleton.1 hr
    exact Nat.le_refl 1

end State

end StateText
