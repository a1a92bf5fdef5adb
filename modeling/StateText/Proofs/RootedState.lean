import StateText.Draft
import StateText.Proofs.LoadedState

/-!
# States step by step

A state grows when one of its modules is asked for and resources and outputs are put into it. A
draft grows one by its own steps, and so does the reader of a state file. Along all of these runs a
state stays `Rooted`: with any module it has the root, and everything stands under the text of its
address.

Asking for a module changes no module that is there. A step of a draft puts at most one instance or
one output; whatever else there is stays as it was.
-/

namespace StateText

/-- A text comes before those that go on from it. -/
theorem lt_append_of_ne_empty {s t : String} (h : t ≠ "") : s < s ++ t := by
  have hchars : t.toList ≠ [] := by simpa using h
  obtain ⟨c, cs, hcs⟩ := List.exists_cons_of_ne_nil hchars
  rw [String.lt_iff, String.toList_append, hcs]
  have hlt : s.toList ++ [] < s.toList ++ c :: cs := List.append_left_lt (List.nil_lt_cons c cs)
  rwa [List.append_nil] at hlt

namespace ModulePath

/-- The path of a module that calls this one, directly or through others. -/
def Above (p q : ModulePath) : Prop := p.steps <+: q.steps ∧ p ≠ q

theorem text_append {steps rest : List String} (h : steps ≠ []) (h' : rest ≠ []) :
    text ⟨steps ++ rest⟩ = text ⟨steps⟩ ++ "." ++ text ⟨rest⟩ := by
  simp only [text, List.map_append]
  exact String.intercalate_append_of_ne_nil (by simpa using h) (by simpa using h')

/-- The text of a path comes before the texts of those that go on from it. -/
theorem Above.text_lt {p q : ModulePath} (h : p.Above q) : p.text < q.text := by
  obtain ⟨⟨rest, hsteps⟩, hne⟩ := h
  have hrest : rest ≠ [] := by
    rintro rfl
    rw [List.append_nil] at hsteps
    exact hne (congrArg mk hsteps)
  have hq : q = ⟨p.steps ++ rest⟩ := by rw [hsteps]
  by_cases hp : p.steps = []
  · have hroot : p = root := congrArg mk hp
    have hq : q.text ≠ "" := fun heq => hne (hroot.trans (eq_root_of_text heq).symm)
    have hlt : "" < "" ++ q.text := lt_append_of_ne_empty hq
    rwa [String.empty_append, ← text_root, ← hroot] at hlt
  · rw [hq, text_append hp hrest, String.append_assoc]
    exact lt_append_of_ne_empty (by simp)

end ModulePath

/-! ### One module -/

namespace Module

structure Filed (m : Module) : Prop where
  nodup : (Entries.keys m.resources).Nodup
  addresses : ∀ r ∈ m.resources, r.2.address.text = r.1

theorem filed_new (path : ModulePath) : (new path).Filed :=
  ⟨List.nodup_nil, fun _ hr => absurd hr List.not_mem_nil⟩

variable {m : Module}

theorem Filed.put (h : m.Filed) {key : String} {r : Resource} (hr : r.address.text = key) :
    Filed { m with resources := Entries.put key r m.resources } where
  nodup := Entries.nodup_keys_put h.nodup
  addresses e he := by
    rcases Entries.mem_put he with rfl | he
    · exact hr
    · exact h.addresses e he

theorem filed_putResource (h : m.Filed) (r : Resource) :
    (m.putResource r).Filed ∧ (m.putResource r).path = m.path :=
  ⟨h.put rfl, rfl⟩

theorem filed_putOutput (h : m.Filed) (name : String) (o : Output) :
    (m.putOutput name o).Filed ∧ (m.putOutput name o).path = m.path :=
  ⟨⟨h.nodup, h.addresses⟩, rfl⟩

end Module

/-! ### Modules on demand -/

namespace State

/-- The modules stand in the order of their keys, with any of them there is the root, and each
stands under the text of its path with its resources under the texts of theirs. -/
structure Rooted (s : State) : Prop where
  ascending : s.modules.Pairwise fun a b => a.1 < b.1
  root : s.modules ≠ [] → ∃ m, s.root? = some m
  paths : ∀ m ∈ s.modules, m.2.path.text = m.1
  filed : ∀ m ∈ s.modules, m.2.Filed

variable {s : State}

theorem addMissing_spec (h : s.modules.Pairwise fun a b => a.1 < b.1) (path : ModulePath) :
    ((s.addMissing path).modules.Pairwise fun a b => a.1 < b.1) ∧
      ∀ key, Entries.get? key (s.addMissing path).modules =
        (Entries.get? key s.modules).or (if key = path.text then some (.new path) else none) := by
  by_cases hmem : path.text ∈ Entries.keys s.modules
  · rw [addMissing_of_mem hmem]
    refine ⟨h, fun key => ?_⟩
    by_cases hkey : key = path.text
    · subst hkey
      have hsome := mt Entries.get?_eq_none_iff.1 (not_not.2 hmem)
      obtain ⟨m, hm⟩ := Option.ne_none_iff_exists'.1 hsome
      rw [hm, Option.some_or]
    · rw [if_neg hkey, Option.or_none]
  · have hnodup : (Entries.keys (Entries.put path.text (.new path) s.modules)).Nodup :=
      Entries.nodup_keys_put (Entries.nodup_keys_of_ascending h)
    rw [addMissing_of_not_mem hmem]
    refine ⟨Entries.sorted_pairwise_lt hnodup, fun key => ?_⟩
    rw [Entries.get?_sorted hnodup, Entries.get?_put]
    by_cases hkey : path.text = key
    · subst hkey
      rw [if_pos rfl, if_pos rfl, Entries.get?_eq_none_iff.2 hmem, Option.none_or]
    · rw [if_neg hkey, if_neg (Ne.symm hkey), Option.or_none]

/-- What is asked for is there, made anew only if it was not, and so is the root. -/
theorem ensure_spec (h : s.modules.Pairwise fun a b => a.1 < b.1) (path : ModulePath) :
    ((s.ensure path).modules.Pairwise fun a b => a.1 < b.1) ∧
      ∀ key, Entries.get? key (s.ensure path).modules =
        (Entries.get? key s.modules).or
          (if key = path.text then some (.new path)
          else if key = "" then some (.new .root) else none) := by
  obtain ⟨hroot, hroots⟩ := addMissing_spec h .root
  obtain ⟨hpath, hpaths⟩ := addMissing_spec hroot path
  refine ⟨hpath, fun key => ?_⟩
  rw [ensure, hpaths, hroots, ModulePath.text_root, Option.or_assoc]
  congr 1
  by_cases heq : key = path.text
  · rw [if_pos heq, if_pos heq]
    by_cases hkey : key = ""
    · -- the root itself was asked for
      rw [if_pos hkey, ModulePath.eq_root_of_text (heq.symm.trans hkey), Option.some_or]
    · rw [if_neg hkey, Option.none_or]
  · rw [if_neg heq, if_neg heq, Option.or_none]

theorem module?_ensure (h : s.modules.Pairwise fun a b => a.1 < b.1) (path : ModulePath) :
    (s.ensure path).module? path = some ((s.module? path).getD (.new path)) := by
  rw [module?, (ensure_spec h path).2, if_pos rfl, module?]
  cases Entries.get? path.text s.modules <;> rfl

/-- Only the module that is asked for is changed. -/
theorem update_spec (h : s.modules.Pairwise fun a b => a.1 < b.1) (path : ModulePath)
    (f : Module → Module) :
    ((s.update path f).modules.Pairwise fun a b => a.1 < b.1) ∧
      ∀ key, Entries.get? key (s.update path f).modules =
        if key = path.text then some (f ((s.module? path).getD (.new path)))
        else Entries.get? key (s.ensure path).modules := by
  have hm := module?_ensure h path
  have hmem : path.text ∈ Entries.keys (s.ensure path).modules :=
    Entries.mem_keys.2 ⟨_, Entries.mem_of_get? hm⟩
  have hmodules : (s.update path f).modules =
      Entries.put path.text (f ((s.module? path).getD (.new path))) (s.ensure path).modules := by
    rw [update, hm]
  rw [hmodules]
  refine ⟨?_, fun key => ?_⟩
  · rw [Entries.ascending_iff, Entries.keys_put_of_mem hmem, ← Entries.ascending_iff]
    exact (ensure_spec h path).1
  · rw [Entries.get?_put]
    simp only [eq_comm]

namespace Rooted

theorem get?_eq_some_iff (h : s.Rooted) {key : String} {m : Module} :
    Entries.get? key s.modules = some m ↔ (key, m) ∈ s.modules :=
  Entries.get?_eq_some_iff (Entries.nodup_keys_of_ascending h.ascending)

/-- It is enough to look at what is found under each key. -/
theorem of_get? (hascending : s.modules.Pairwise fun a b => a.1 < b.1)
    (hroot : ∃ m, Entries.get? "" s.modules = some m)
    (heach : ∀ key m, Entries.get? key s.modules = some m → m.path.text = key ∧ m.Filed) :
    s.Rooted := by
  have hfound {m : String × Module} (hm : m ∈ s.modules) := heach m.1 m.2
    ((Entries.get?_eq_some_iff (Entries.nodup_keys_of_ascending hascending)).2 hm)
  exact ⟨hascending, fun _ => hroot, fun m hm => (hfound hm).1, fun m hm => (hfound hm).2⟩

theorem spec_of_get? (h : s.Rooted) {key : String} {m : Module}
    (hm : Entries.get? key s.modules = some m) : m.path.text = key ∧ m.Filed :=
  ⟨h.paths _ (Entries.mem_of_get? hm), h.filed _ (Entries.mem_of_get? hm)⟩

theorem ensure (h : s.Rooted) (path : ModulePath) : (s.ensure path).Rooted := by
  obtain ⟨hascending, hget⟩ := ensure_spec h.ascending path
  refine of_get? hascending ?_ fun key m hm => ?_
  · rw [hget, if_pos (rfl : "" = ""), ← Option.ne_none_iff_exists']
    split_ifs <;> simp
  · rw [hget, Option.or_eq_some_iff] at hm
    rcases hm with hm | ⟨_, hm⟩
    · exact h.spec_of_get? hm
    · split_ifs at hm with hpath hroot
      · cases hm
        exact ⟨hpath.symm, Module.filed_new path⟩
      · cases hm
        exact ⟨hroot.symm, Module.filed_new .root⟩

/-- A change that leaves a module its path and its resources in order does so with the state. -/
theorem update (h : s.Rooted) (path : ModulePath) {f : Module → Module}
    (hf : ∀ m, m.Filed → (f m).Filed ∧ (f m).path = m.path) : (s.update path f).Rooted := by
  obtain ⟨hascending, hget⟩ := update_spec h.ascending path f
  have hensure := h.ensure path
  refine of_get? hascending ?_ fun key m hm => ?_
  · rw [hget]
    split_ifs
    · exact ⟨_, rfl⟩
    · exact hensure.root fun hnil => by
        have hm := module?_ensure h.ascending path
        rw [module?, hnil] at hm
        cases hm
  · rw [hget] at hm
    split_ifs at hm with hkey
    · obtain ⟨hpath, hfiled⟩ := hensure.spec_of_get? (module?_ensure h.ascending path)
      obtain ⟨hfiled', hpath'⟩ := hf _ hfiled
      cases hm
      exact ⟨by rw [hpath', hpath, hkey], hfiled'⟩
    · exact hensure.spec_of_get? hm

end Rooted

theorem rooted_empty : empty.Rooted where
  ascending := .nil
  root h := absurd rfl h
  paths _ hm := absurd hm List.not_mem_nil
  filed _ hm := absurd hm List.not_mem_nil

theorem rooted_new : new.Rooted := rooted_empty.ensure .root

/-! ### Runs -/

inductive Step where
  | module (path : ModulePath)
  | resource (path : ModulePath) (r : Resource)
  | output (path : ModulePath) (name : String) (o : Output)

def step (s : State) : Step → State
  | .module path => s.ensure path
  | .resource path r => s.update path fun m => m.putResource r
  | .output path name o => s.update path fun m => m.putOutput name o

theorem Rooted.step (h : s.Rooted) (x : Step) : (s.step x).Rooted := by
  cases x with
  | module path => exact h.ensure path
  | resource path r => exact h.update path fun m hm => m.filed_putResource hm r
  | output path name o => exact h.update path fun m hm => m.filed_putOutput hm name o

theorem Rooted.run (h : s.Rooted) (xs : List Step) : (xs.foldl State.step s).Rooted := by
  induction xs generalizing s with
  | nil => exact h
  | cons x xs ih => exact ih (h.step x)

/-- The reader of a state file leaves a state rooted, too. -/
theorem rooted_of_parse {content : String} (h : parse content = .ok s) : s.Rooted := by
  have hfiled := filed_of_parse h
  refine ⟨hfiled.modules, fun hne => ?_, hfiled.paths,
    fun m hm => ⟨hfiled.resources m hm, hfiled.addresses m hm⟩⟩
  rw [parse] at h
  split at h
  · cases h
  next records _ =>
    by_cases hnil : records = []
    · subst hnil
      cases h
      exact absurd rfl hne
    · have hmerges := (ofRecords_merges hnil).1 s h
      exact ⟨_, (hmerges.module "").trans (if_pos (.inl rfl))⟩

/-! ### The order of the modules -/

/-- The root is listed first, and every module behind all that call it. -/
structure CallersFirst (s : State) : Prop where
  head : ∀ m ∈ s.modules.head?, m.1 = "" ∧ m.2.path = .root
  above : s.modules.Pairwise fun a b => ¬ b.2.path.Above a.2.path

theorem Rooted.callersFirst (h : s.Rooted) : s.CallersFirst where
  head m hm := by
    have hmem : m ∈ s.modules := List.mem_of_mem_head? hm
    obtain ⟨root, hroot⟩ := h.root (List.ne_nil_of_mem hmem)
    have hroot : ("", root) ∈ s.modules := Entries.mem_of_get? hroot
    obtain ⟨ms, hms⟩ := List.head?_eq_some_iff.1 hm
    have hkey : m.1 = "" := by
      have hascending := h.ascending
      rw [hms] at hroot hascending
      rcases List.mem_cons.1 hroot with heq | hin
      · rw [← heq]
      · -- nothing is in front of the empty key
        have hlt : m.1 < "" := (List.pairwise_cons.1 hascending).1 _ hin
        rw [String.lt_iff] at hlt
        exact absurd hlt (List.not_lt_nil _)
    refine ⟨hkey, ModulePath.eq_root_of_text ?_⟩
    rw [h.paths m hmem, hkey]
  above := by
    refine h.ascending.imp_of_mem fun {a b} ha hb hab habove => ?_
    have hlt := habove.text_lt
    rw [h.paths a ha, h.paths b hb] at hlt
    exact String.lt_asymm hab hlt

end State

/-! ### Drafts -/

inductive Place where
  | stored (module address : String) (key : InstanceKey)
  | output (module name : String)

/-- The same module, with all that it had but what is put at the place. -/
structure Module.Kept (place : Option Place) (module : String) (m m' : Module) : Prop where
  path_eq : m'.path = m.path
  resources : ∀ address r, Entries.get? address m.resources = some r →
    ∃ r', Entries.get? address m'.resources = some r' ∧ r'.address = r.address ∧
      r'.provider = r.provider ∧ ∀ key, place ≠ some (.stored module address key) →
        Entries.get? key r'.instances = Entries.get? key r.instances
  outputs : ∀ name, place ≠ some (.output module name) →
    Entries.get? name m'.outputs = Entries.get? name m.outputs

theorem Module.kept_self (place : Option Place) (module : String) (m : Module) :
    m.Kept place module m :=
  ⟨rfl, fun _ r hr => ⟨r, hr, rfl, rfl, fun _ _ => rfl⟩, fun _ _ => rfl⟩

namespace State

/-- Every module that was there is there still, with all that it had but what is put at the
place. -/
def Kept (place : Option Place) (s s' : State) : Prop :=
  ∀ key m, Entries.get? key s.modules = some m →
    ∃ m', Entries.get? key s'.modules = some m' ∧ m.Kept place key m'

variable {s : State}

theorem kept_ensure (h : s.modules.Pairwise fun a b => a.1 < b.1) (path : ModulePath)
    (place : Option Place) : s.Kept place (s.ensure path) := by
  intro key m hm
  refine ⟨m, ?_, m.kept_self place key⟩
  rw [(ensure_spec h path).2, hm, Option.some_or]

/-- A change that keeps one module keeps them all. -/
theorem kept_update (h : s.modules.Pairwise fun a b => a.1 < b.1) (path : ModulePath)
    {place : Option Place} {f : Module → Module}
    (hf : ∀ m : Module, m.Kept place path.text (f m)) : s.Kept place (s.update path f) := by
  intro key m hm
  obtain ⟨_, hget⟩ := update_spec h path f
  rw [hget]
  by_cases hkey : key = path.text
  · subst hkey
    rw [if_pos rfl, module?, hm]
    exact ⟨_, rfl, hf m⟩
  · rw [if_neg hkey]
    exact kept_ensure h path place key m hm

end State

namespace Draft

inductive Step where
  | enter (path : ModulePath)
  | enterRoot
  | useProvider (provider : String)
  | managed (type name : String) (attributes : Json)
  | tainted (type name : String) (attributes : Json)
  | data (type name : String) (attributes : Json)
  | add (address : ResourceAddress) (key : InstanceKey) (status : Status) (attributes : Json)
  | output (name : String) (value : Value)

def step (d : Draft) : Step → Draft
  | .enter path => d.enter path
  | .enterRoot => d.enterRoot
  | .useProvider provider => d.useProvider provider
  | .managed type name attributes => d.addManaged type name attributes
  | .tainted type name attributes => d.addTainted type name attributes
  | .data type name attributes => d.addData type name attributes
  | .add address key status attributes => d.addInstance address key status attributes
  | .output name value => d.addOutput name value

def instancePlace (d : Draft) (address : ResourceAddress) (key : InstanceKey) : Option Place :=
  some (.stored d.module.text address.text key)

def place (d : Draft) : Step → Option Place
  | .enter _ => none
  | .enterRoot => none
  | .useProvider _ => none
  | .managed type name _ => d.instancePlace ⟨.managed, type, name⟩ .none
  | .tainted type name _ => d.instancePlace ⟨.managed, type, name⟩ .none
  | .data type name _ => d.instancePlace ⟨.data, type, name⟩ .none
  | .add address key _ _ => d.instancePlace address key
  | .output name _ => some (.output ModulePath.root.text name)

variable {d : Draft}

theorem rooted_addInstance (h : d.state.Rooted) (address : ResourceAddress) (key : InstanceKey)
    (status : Status) (attributes : Json) :
    (d.addInstance address key status attributes).state.Rooted := by
  refine h.update d.module fun m hm => ⟨hm.put ?_, rfl⟩
  cases hr : Entries.get? address.text m.resources with
  | none => rfl
  | some r => exact hm.addresses _ (Entries.mem_of_get? hr)

theorem rooted_step (h : d.state.Rooted) (x : Step) : (d.step x).state.Rooted := by
  cases x with
  | enter path => exact h.ensure path
  | enterRoot => exact h.ensure .root
  | useProvider provider => exact h
  | managed type name attributes => exact rooted_addInstance h _ _ _ _
  | tainted type name attributes => exact rooted_addInstance h _ _ _ _
  | data type name attributes => exact rooted_addInstance h _ _ _ _
  | add address key status attributes => exact rooted_addInstance h _ _ _ _
  | output name value =>
    exact h.update .root fun m hm => m.filed_putOutput hm name ⟨value, false⟩

theorem rooted_run (h : d.state.Rooted) (xs : List Step) : (xs.foldl step d).state.Rooted := by
  induction xs generalizing d with
  | nil => exact h
  | cons x xs ih => exact ih (rooted_step h x)

theorem kept_addInstance (h : d.state.Rooted) (address : ResourceAddress) (key : InstanceKey)
    (status : Status) (attributes : Json) :
    d.state.Kept (d.instancePlace address key)
      (d.addInstance address key status attributes).state := by
  refine State.kept_update h.ascending d.module fun m =>
    ⟨rfl, fun other r hr => ?_, fun _ _ => rfl⟩
  dsimp only
  rw [Entries.get?_put]
  by_cases heq : address.text = other
  · subst heq
    rw [if_pos rfl, hr]
    refine ⟨_, rfl, rfl, rfl, fun key' hplace => ?_⟩
    have hkey : key ≠ key' := fun hkey => hplace (hkey ▸ rfl)
    rw [Option.getD_some, Entries.get?_put, if_neg hkey]
  · rw [if_neg heq]
    exact ⟨r, hr, rfl, rfl, fun _ _ => rfl⟩

/-- A step keeps all that there is, but for one instance or one output that it may put. -/
theorem kept_step (h : d.state.Rooted) (x : Step) : d.state.Kept (d.place x) (d.step x).state := by
  cases x with
  | enter path => exact State.kept_ensure h.ascending path _
  | enterRoot => exact State.kept_ensure h.ascending .root _
  | useProvider provider => exact fun key m hm => ⟨m, hm, m.kept_self _ key⟩
  | managed type name attributes => exact kept_addInstance h _ _ _ _
  | tainted type name attributes => exact kept_addInstance h _ _ _ _
  | data type name attributes => exact kept_addInstance h _ _ _ _
  | add address key status attributes => exact kept_addInstance h _ _ _ _
  | output name value =>
    refine State.kept_update h.ascending .root fun m =>
      ⟨rfl, fun _ r hr => ⟨r, hr, rfl, rfl, fun _ _ => rfl⟩, fun other hplace => ?_⟩
    have hname : name ≠ other := fun hname => hplace (hname ▸ rfl)
    rw [Module.putOutput, Entries.get?_put, if_neg hname]

end Draft

namespace State

/-- From the state without modules or the one with the root alone, along every run of steps, in
every draft and in every state from a file, a state is rooted and lists a module behind its callers.
Asking for a module finds one; it is new only if there was none, as is the root, and all else stays
as it was. A change to a module changes no other one, and a step of a draft keeps all that there is
but what it puts. -/
theorem rooted_along_runs :
    (∀ s, s = empty ∨ s = new → ∀ steps : List Step,
        (steps.foldl step s).Rooted ∧ (steps.foldl step s).CallersFirst) ∧
      (∀ steps : List Draft.Step,
        let d := steps.foldl Draft.step .new
        d.state.Rooted ∧ d.state.CallersFirst ∧
          ∀ x, d.state.Kept (d.place x) (d.step x).state) ∧
      (∀ content s, parse content = .ok s → s.Rooted ∧ s.CallersFirst) ∧
      ∀ s : State, s.Rooted → ∀ path,
        (∃ m, (s.ensure path).module? path = some m) ∧
          (∀ key, Entries.get? key (s.ensure path).modules =
            (Entries.get? key s.modules).or
              (if key = path.text then some (.new path)
              else if key = "" then some (.new .root) else none)) ∧
          ∀ f key, key ≠ path.text →
            Entries.get? key (s.update path f).modules =
              Entries.get? key (s.ensure path).modules := by
  refine ⟨fun s hs steps => ?_, fun steps => ?_, fun content s hs => ?_, fun s hs path => ?_⟩
  · have hstart : s.Rooted := by
      rcases hs with rfl | rfl
      · exact rooted_empty
      · exact rooted_new
    exact ⟨hstart.run steps, (hstart.run steps).callersFirst⟩
  · have hd := Draft.rooted_run (d := .new) rooted_new steps
    exact ⟨hd, hd.callersFirst, fun x => Draft.kept_step hd x⟩
  · exact ⟨rooted_of_parse hs, (rooted_of_parse hs).callersFirst⟩
  · refine ⟨⟨_, module?_ensure hs.ascending path⟩, (ensure_spec hs.ascending path).2, ?_⟩
    intro f key hkey
    rw [(update_spec hs.ascending path f).2, if_neg hkey]

def crossed : List Step :=
  [.resource ⟨["a", "b"]⟩ ⟨⟨.managed, "data.t", "n"⟩, "p", []⟩, .output .root "x" ⟨.null, true⟩,
    .module ⟨["a"]⟩, .output .root "x" ⟨.bool true, false⟩,
    .resource ⟨["a", "b"]⟩ ⟨⟨.data, "t", "n"⟩, "q", []⟩]

theorem rooted_along_runs_crossed :
    let t := crossed.foldl step empty
    (Entries.keys t.modules = ["", "module.a", "module.a.module.b"] ∧ t.Rooted ∧ t.CallersFirst) ∧
      (∃ s, parse interleaved = .ok s ∧ s.Rooted ∧ s.CallersFirst) ∧
      (∃ m, (t.ensure ⟨["c"]⟩).module? ⟨["c"]⟩ = some m) ∧
      ∀ f, Entries.get? "" (t.update ⟨["a"]⟩ f).modules =
        Entries.get? "" (t.ensure ⟨["a"]⟩).modules := by
  intro t
  obtain ⟨hruns, _, hparse, hensure⟩ := rooted_along_runs
  obtain ⟨ht, hfirst⟩ := hruns empty (.inl rfl) crossed
  have hkeys : Entries.keys (crossed.foldl step empty).modules =
      ["", "module.a", "module.a.module.b"] := by decide +kernel
  obtain ⟨s, hs, _⟩ : ∃ s, parse interleaved = .ok s ∧ s.isEmpty = false :=
    exists_of_map_toOption (by decide +kernel)
  refine ⟨⟨hkeys, ht, hfirst⟩, ⟨s, hs, hparse _ s hs⟩, (hensure t ht ⟨["c"]⟩).1, fun f => ?_⟩
  exact (hensure t ht ⟨["a"]⟩).2.2 f "" (by decide)

end State

end StateText
