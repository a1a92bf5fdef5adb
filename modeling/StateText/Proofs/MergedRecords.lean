import Mathlib.Data.List.Perm.Basic
import StateText.Proofs.AddressText
import StateText.Proofs.IterationOrder
import StateText.Proofs.MissingSchema
import StateText.State.Record

/-!
# Records of one module

The records of a file whose paths have one text describe one module together. `parse_records` says
which lists of records describe a state and what that state is: every module is `merged` from its
records, whatever stands between them.
-/

namespace StateText

namespace Entries

variable {κ α : Type}

theorem keys_append (es ds : Entries κ α) : keys (es ++ ds) = keys es ++ keys ds := List.map_append

theorem keys_map {β : Type} (k : β → κ) (v : β → α) (bs : List β) :
    keys (bs.map fun b => (k b, v b)) = bs.map k := by
  rw [keys, List.map_map]
  rfl

/-- One more entry keeps the keys apart unless its key is there. -/
theorem nodup_keys_snoc {es : Entries κ α} (h : (keys es).Nodup) {e : κ × α} (he : e.1 ∉ keys es) :
    (keys (es ++ [e])).Nodup := by
  rw [keys_append]
  refine List.nodup_append.2 ⟨h, by simp, ?_⟩
  intro k hk k' hk' heq
  exact he (List.mem_singleton.1 hk' ▸ heq ▸ hk)

theorem not_nodup_keys_of_mem {es ds : Entries κ α} {e : κ × α} (he : e.1 ∈ keys es) :
    ¬ (keys (es ++ e :: ds)).Nodup := by
  rw [keys_append, List.nodup_append]
  rintro ⟨_, _, hne⟩
  exact hne _ he _ List.mem_cons_self rfl

variable [DecidableEq κ]

/-- A value under a key that is there changes no key. -/
theorem keys_put_of_mem {key : κ} {es : Entries κ α} (h : key ∈ keys es) (v : α) :
    keys (put key v es) = keys es := by
  rw [keys_put, if_pos h]

theorem get?_sorted {es : Entries String α} (hn : (keys es).Nodup) (key : String) :
    get? key (sorted es) = get? key es :=
  (get?_eq_of_perm (sortBy_perm _ es).symm hn key).symm

end Entries

namespace StoredInstance

def stored (i : StoredInstance) : InstanceKey × Instance := (i.key, ⟨i.status, i.attributes.render⟩)

end StoredInstance

namespace StoredResource

def resource (r : StoredResource) : Resource :=
  ⟨r.address, r.provider, r.instances.map StoredInstance.stored⟩

def entry (r : StoredResource) : String × Resource := (r.address.text, r.resource)

def KeysOnce (r : StoredResource) : Prop := (r.instances.map StoredInstance.key).Nodup

theorem keys_stored (is : List StoredInstance) :
    Entries.keys (is.map StoredInstance.stored) = is.map StoredInstance.key :=
  Entries.keys_map _ _ is

end StoredResource

namespace StoredModule

def sharing (key : String) (records : List StoredModule) : List StoredModule :=
  records.filter fun r => r.path.text = key

def resourceEntries (r : StoredModule) : Entries String Resource :=
  r.resources.map StoredResource.entry

/-- The module that records describe together: it has the path of the first one, the resources of
all, and of several outputs under one name the last. -/
def merged (records : List StoredModule) : Module where
  path := (records.head?.map path).getD .root
  resources := records.flatMap resourceEntries
  outputs := Entries.ofPairs (records.flatMap outputs)

def listed (names : StoredModule → List String) (records : List StoredModule) :
    List (String × String) :=
  records.flatMap fun r => (names r).map fun name => (r.path.text, name)

def addresses (records : List StoredModule) : List (String × String) :=
  listed (fun r => r.resources.map fun x => x.address.text) records

def outputNames (records : List StoredModule) : List (String × String) :=
  listed (fun r => Entries.keys r.outputs) records

def addTo (m : Module) (r : StoredModule) : Module where
  path := m.path
  resources := m.resources ++ r.resourceEntries
  outputs := r.outputs.foldl (fun es o => Entries.put o.1 o.2 es) m.outputs

theorem merged_snoc {records : List StoredModule} (h : records ≠ []) (r : StoredModule) :
    merged (records ++ [r]) = addTo (merged records) r := by
  have hhead : (records ++ [r]).head? = records.head? := by
    rw [List.head?_append, Option.or_of_isSome (List.isSome_head?.2 h)]
  rw [merged, hhead, List.flatMap_append, List.flatMap_append, List.flatMap_singleton,
    List.flatMap_singleton, Entries.ofPairs, List.foldl_append]
  rfl

theorem sharing_snoc (key : String) (records : List StoredModule) (r : StoredModule) :
    sharing key (records ++ [r]) =
      if r.path.text = key then sharing key records ++ [r] else sharing key records := by
  rw [sharing, List.filter_append]
  split
  next h => simp [h, sharing]
  next h => simp [h, sharing]

theorem mem_sharing {key : String} {records : List StoredModule} {r : StoredModule} :
    r ∈ sharing key records ↔ r ∈ records ∧ r.path.text = key := by
  rw [sharing, List.mem_filter, decide_eq_true_eq]

theorem sharing_eq_nil_iff {key : String} {records : List StoredModule} :
    sharing key records = [] ↔ ¬ ∃ r ∈ records, r.path.text = key := by
  simp [sharing, List.filter_eq_nil_iff]

theorem merged_singleton (r : StoredModule) : merged [r] = addTo (.new r.path) r := by
  rw [merged, List.flatMap_singleton, List.flatMap_singleton]
  rfl

end StoredModule

namespace State

theorem instancesOf_eq_ok_iff (module : ModulePath) (address : ResourceAddress)
    {es is : Entries InstanceKey Instance} (h : (Entries.keys es).Nodup)
    {rs : List StoredInstance} :
    instancesOf module address es rs = .ok is ↔
      is = es ++ rs.map StoredInstance.stored ∧ (Entries.keys is).Nodup := by
  induction rs generalizing es with
  | nil =>
    rw [instancesOf, List.map_nil, List.append_nil, Except.ok.injEq]
    exact ⟨fun heq => ⟨heq.symm, heq ▸ h⟩, fun hand => hand.1.symm⟩
  | cons r rs ih =>
    rw [instancesOf, List.map_cons]
    split
    next hmem =>
      constructor
      · intro hok
        cases hok
      · rintro ⟨rfl, hn⟩
        exact absurd hn (Entries.not_nodup_keys_of_mem (e := r.stored) hmem)
    next hmem =>
      have hsnoc := Entries.nodup_keys_snoc (e := r.stored) h hmem
      rw [show (r.key, (⟨r.status, r.attributes.render⟩ : Instance)) = r.stored from rfl, ih hsnoc,
        List.append_assoc, List.singleton_append]

/-- A resource record is read as its resource, unless an instance key comes twice. -/
theorem instancesOf_nil_eq_ok_iff (module : ModulePath) (r : StoredResource)
    {is : Entries InstanceKey Instance} :
    instancesOf module r.address [] r.instances = .ok is ↔
      is = r.resource.instances ∧ r.KeysOnce := by
  have hnil : (Entries.keys ([] : Entries InstanceKey Instance)).Nodup := List.nodup_nil
  rw [instancesOf_eq_ok_iff module r.address hnil, List.nil_append]
  refine and_congr_right fun heq => ?_
  rw [heq, StoredResource.keys_stored, StoredResource.KeysOnce]

theorem addResources_eq_ok_iff (module : ModulePath) {es es' : Entries String Resource}
    (h : (Entries.keys es).Nodup) {rs : List StoredResource} :
    addResources module es rs = .ok es' ↔
      es' = es ++ rs.map StoredResource.entry ∧ (Entries.keys es').Nodup ∧
        ∀ r ∈ rs, r.KeysOnce := by
  induction rs generalizing es with
  | nil =>
    rw [addResources, List.map_nil, List.append_nil, Except.ok.injEq]
    exact ⟨fun heq => ⟨heq.symm, heq ▸ h, fun r hr => absurd hr List.not_mem_nil⟩,
      fun hand => hand.1.symm⟩
  | cons r rs ih =>
    rw [addResources, List.map_cons]
    cases hinstances : instancesOf module r.address [] r.instances with
    | error e =>
      dsimp only
      constructor
      · intro hok
        cases hok
      · rintro ⟨_, _, honce⟩
        have hok := (instancesOf_nil_eq_ok_iff module r).2 ⟨rfl, honce r List.mem_cons_self⟩
        rw [hinstances] at hok
        cases hok
    | ok is =>
      obtain ⟨rfl, honce⟩ := (instancesOf_nil_eq_ok_iff module r).1 hinstances
      dsimp only
      split
      next hmem =>
        constructor
        · intro hok
          cases hok
        · rintro ⟨rfl, hn, _⟩
          exact absurd hn (Entries.not_nodup_keys_of_mem (e := r.entry) hmem)
      next hmem =>
        have hsnoc := Entries.nodup_keys_snoc (e := r.entry) h hmem
        rw [show (r.address.text, (⟨r.address, r.provider, r.resource.instances⟩ : Resource)) =
          r.entry from rfl, ih hsnoc, List.append_assoc, List.singleton_append,
          List.forall_mem_cons]
        simp only [honce, true_and]

/-! ### One record -/

theorem addMissing_of_mem {s : State} {path : ModulePath} (h : path.text ∈ Entries.keys s.modules) :
    s.addMissing path = s := by
  unfold addMissing module?
  cases hget : Entries.get? path.text s.modules with
  | some m => rfl
  | none => exact absurd h (Entries.get?_eq_none_iff.1 hget)

theorem addMissing_of_not_mem {s : State} {path : ModulePath}
    (h : path.text ∉ Entries.keys s.modules) :
    s.addMissing path = ⟨Entries.sorted (Entries.put path.text (.new path) s.modules)⟩ := by
  unfold addMissing module?
  rw [Entries.get?_eq_none_iff.2 h]

/-- A state whose modules are merged from records: there is one for the root and one for every text
of a path, and they stand in the order of these texts. -/
structure Merges (records : List StoredModule) (s : State) : Prop where
  ascending : s.modules.Pairwise fun a b => a.1 < b.1
  module : ∀ key, Entries.get? key s.modules =
    if key = "" ∨ ∃ r ∈ records, r.path.text = key then
      some (StoredModule.merged (StoredModule.sharing key records))
    else none

theorem merges_new : State.new.Merges [] where
  ascending := List.pairwise_singleton _ _
  module key := by
    have hmodules : State.new.modules = [("", .new .root)] := rfl
    rw [hmodules, Entries.get?_cons, Entries.get?_nil]
    by_cases h : key = ""
    · rw [if_pos h.symm, if_pos (.inl h)]
      rfl
    · rw [if_neg (Ne.symm h), if_neg (by simpa using h)]

namespace Merges

open StoredModule (merged sharing addTo merged_snoc merged_singleton sharing_snoc
  sharing_eq_nil_iff)

variable {records : List StoredModule} {s : State}

theorem mem_keys (h : s.Merges records) {key : String} :
    key ∈ Entries.keys s.modules ↔ key = "" ∨ ∃ r ∈ records, r.path.text = key := by
  rw [← not_iff_not, ← Entries.get?_eq_none_iff, h.module]
  split
  next hkey => simp [hkey]
  next hkey => simp [hkey]

/-- The module that is there for a record holds what the earlier records of its module tell. -/
theorem ensure (h : s.Merges records) (r : StoredModule) :
    ∃ m, (s.ensure r.path).module? r.path = some m ∧
      m.resources = (merged (sharing r.path.text records)).resources ∧
      addTo m r = merged (sharing r.path.text (records ++ [r])) ∧
      ((s.ensure r.path).modules.Pairwise fun a b => a.1 < b.1) ∧
      ∀ key, key ≠ r.path.text →
        Entries.get? key (s.ensure r.path).modules = Entries.get? key s.modules := by
  have hroot : ModulePath.root.text ∈ Entries.keys s.modules := h.mem_keys.2 (.inl rfl)
  rw [State.ensure, addMissing_of_mem hroot, sharing_snoc, if_pos rfl]
  by_cases hmem : r.path.text ∈ Entries.keys s.modules
  · rw [addMissing_of_mem hmem]
    refine ⟨_, ?_, rfl, ?_, h.ascending, fun _ _ => rfl⟩
    · rw [module?, h.module, if_pos (h.mem_keys.1 hmem)]
    · by_cases hown : sharing r.path.text records = []
      · -- the root, which is there without a record
        have hempty := (h.mem_keys.1 hmem).resolve_right (sharing_eq_nil_iff.1 hown)
        rw [hown, List.nil_append, merged_singleton, ModulePath.eq_root_of_text hempty]
        rfl
      · rw [merged_snoc hown]
  · have hnodup : (Entries.keys (Entries.put r.path.text (.new r.path) s.modules)).Nodup :=
      Entries.nodup_keys_put (Entries.nodup_keys_of_ascending h.ascending)
    have hown : sharing r.path.text records = [] :=
      sharing_eq_nil_iff.2 fun hr => hmem (h.mem_keys.2 (.inr hr))
    rw [addMissing_of_not_mem hmem]
    refine ⟨.new r.path, ?_, ?_, ?_, Entries.sorted_pairwise_lt hnodup, fun key hkey => ?_⟩
    · rw [module?, Entries.get?_sorted hnodup, Entries.get?_put, if_pos rfl]
    · rw [hown]
      rfl
    · rw [hown, List.nil_append, merged_singleton]
    · rw [Entries.get?_sorted hnodup, Entries.get?_put, if_neg (Ne.symm hkey)]

/-- A module's new content in its place. -/
theorem put (h : s.Merges records) (r : StoredModule) {m : Module}
    (hm : (s.ensure r.path).module? r.path = some m)
    (hadd : addTo m r = merged (sharing r.path.text (records ++ [r]))) :
    State.Merges (records ++ [r])
      ⟨Entries.put r.path.text (addTo m r) (s.ensure r.path).modules⟩ := by
  obtain ⟨_, _, _, _, hascending, hother⟩ := h.ensure r
  have hmem : r.path.text ∈ Entries.keys (s.ensure r.path).modules :=
    Entries.mem_keys.2 ⟨m, Entries.mem_of_get? hm⟩
  refine ⟨?_, fun key => ?_⟩
  · rw [Entries.ascending_iff] at hascending ⊢
    rwa [Entries.keys_put_of_mem hmem]
  · rw [Entries.get?_put]
    by_cases hkey : r.path.text = key
    · rw [if_pos hkey, if_pos (.inr ⟨r, by simp, hkey⟩), hadd, hkey]
    · rw [if_neg hkey, hother key (Ne.symm hkey), h.module, sharing_snoc, if_neg hkey]
      simp [hkey]

theorem addRecord_eq_ok_iff (h : s.Merges records) {r : StoredModule} {s' : State}
    (hn : (Entries.keys (merged (sharing r.path.text records)).resources).Nodup) :
    s.addRecord r = .ok s' ↔
      (s' = ⟨Entries.put r.path.text (merged (sharing r.path.text (records ++ [r])))
          (s.ensure r.path).modules⟩ ∧
        (Entries.keys (merged (sharing r.path.text (records ++ [r]))).resources).Nodup ∧
        ∀ x ∈ r.resources, x.KeysOnce) := by
  obtain ⟨m, hm, hresources, hadd, _⟩ := h.ensure r
  rw [State.addRecord, hm, ← hadd]
  dsimp only
  rw [← hresources] at hn
  cases hok : addResources r.path m.resources r.resources with
  | error e =>
    dsimp only
    constructor
    · intro heq
      cases heq
    · rintro ⟨_, hnodup, honce⟩
      have := (addResources_eq_ok_iff r.path hn).2 ⟨rfl, hnodup, honce⟩
      rw [hok] at this
      cases this
  | ok resources =>
    obtain ⟨rfl, hnodup, honce⟩ := (addResources_eq_ok_iff r.path hn).1 hok
    dsimp only
    rw [Except.ok.injEq]
    exact ⟨fun heq => ⟨heq.symm, hnodup, honce⟩, fun hand => hand.1.symm⟩

end Merges

end State

namespace StoredModule

/-- Entries by key and value are apart if they are under every key. -/
theorem nodup_iff_forall_key {α β : Type} [DecidableEq α] {ps : List (α × β)} :
    ps.Nodup ↔ ∀ a, ((ps.filter fun p => p.1 = a).map Prod.snd).Nodup := by
  induction ps with
  | nil => simp
  | cons p ps ih =>
    obtain ⟨a, b⟩ := p
    have hmem : b ∈ (ps.filter fun p => p.1 = a).map Prod.snd ↔ (a, b) ∈ ps := by
      simp
    rw [List.nodup_cons, ih]
    constructor
    · rintro ⟨hnot, hall⟩ key
      by_cases hkey : a = key
      · subst hkey
        simpa [hmem] using ⟨hnot, hall a⟩
      · simpa [hkey] using hall key
    · intro hall
      refine ⟨fun hab => ?_, fun key => ?_⟩
      · have ha := hall a
        rw [List.filter_cons_of_pos (by simp), List.map_cons, List.nodup_cons, hmem] at ha
        exact ha.1 hab
      · refine (hall key).sublist (List.Sublist.map _ ?_)
        exact (List.sublist_cons_self _ _).filter _

theorem map_filter_listed (names : StoredModule → List String) (key : String)
    (records : List StoredModule) :
    ((listed names records).filter fun p => p.1 = key).map Prod.snd =
      (sharing key records).flatMap names := by
  induction records with
  | nil => rfl
  | cons r records ih =>
    rw [listed, List.flatMap_cons, List.filter_append, List.map_append, ← listed, ih,
      List.filter_map, List.map_map]
    by_cases h : r.path.text = key <;> simp [h, sharing, Function.comp_def]

/-- No two resources of one module have addresses with one text. -/
def Apart (records : List StoredModule) : Prop :=
  ∀ key, (Entries.keys (merged (sharing key records)).resources).Nodup

theorem keys_flatMap_resourceEntries (records : List StoredModule) :
    Entries.keys (records.flatMap resourceEntries) =
      records.flatMap fun r => r.resources.map fun x => x.address.text := by
  rw [Entries.keys, List.map_flatMap]
  refine List.flatMap_congr fun r _ => ?_
  rw [resourceEntries, List.map_map]
  rfl

theorem apart_iff {records : List StoredModule} : Apart records ↔ (addresses records).Nodup := by
  rw [nodup_iff_forall_key]
  refine forall_congr' fun key => ?_
  rw [addresses, map_filter_listed, ← keys_flatMap_resourceEntries]
  rfl

theorem Apart.of_append {earlier later : List StoredModule} (h : Apart (earlier ++ later)) :
    Apart earlier := by
  intro key
  have hkey := h key
  rw [sharing, List.filter_append, merged, List.flatMap_append, Entries.keys_append] at hkey
  exact (List.nodup_append.1 hkey).1

end StoredModule

namespace State

open StoredModule (Apart merged sharing sharing_snoc)

/-! ### All records -/

theorem addRecords_merges {earlier later : List StoredModule} {s : State} (h : s.Merges earlier)
    (hn : Apart earlier) :
    (∀ s', s.addRecords later = .ok s' → s'.Merges (earlier ++ later)) ∧
      ((∃ s', s.addRecords later = .ok s') ↔
        (∀ r ∈ later, ∀ x ∈ r.resources, x.KeysOnce) ∧ Apart (earlier ++ later)) := by
  induction later generalizing earlier s with
  | nil =>
    rw [addRecords, List.append_nil]
    refine ⟨fun s' heq => Except.ok.inj heq ▸ h, fun _ => ⟨?_, hn⟩, fun _ => ⟨s, rfl⟩⟩
    exact fun r hr => absurd hr List.not_mem_nil
  | cons r later ih =>
    have hsplit : earlier ++ r :: later = earlier ++ [r] ++ later := by simp
    rw [addRecords, hsplit]
    cases hr : s.addRecord r with
    | error e =>
      dsimp only
      refine ⟨fun s' heq => (nomatch heq), fun ⟨s', heq⟩ => (nomatch heq), fun ⟨honce, hall⟩ => ?_⟩
      have hok := (h.addRecord_eq_ok_iff (hn _)).2
        ⟨rfl, hall.of_append _, honce r List.mem_cons_self⟩
      rw [hr] at hok
      cases hok
    | ok s₁ =>
      obtain ⟨rfl, hnodup, honce⟩ := (h.addRecord_eq_ok_iff (hn _)).1 hr
      obtain ⟨m, hm, _, hadd, _⟩ := h.ensure r
      have hmerges := h.put r hm hadd
      have hapart : Apart (earlier ++ [r]) := by
        intro key
        by_cases hkey : r.path.text = key
        · exact hkey ▸ hnodup
        · rw [sharing_snoc, if_neg hkey]
          exact hn key
      rw [hadd] at hmerges
      obtain ⟨hall, hiff⟩ := ih hmerges hapart
      refine ⟨hall, hiff.trans (and_congr_left fun _ => ?_)⟩
      exact ⟨fun hlater => List.forall_mem_cons.2 ⟨honce, hlater⟩,
        fun hall => (List.forall_mem_cons.1 hall).2⟩

/-- The state that records describe is merged from them, and they describe one unless an instance
key comes twice in a resource or an address twice in a module. -/
theorem ofRecords_merges {records : List StoredModule} (hne : records ≠ []) :
    (∀ s, ofRecords records = .ok s → s.Merges records) ∧
      ((∃ s, ofRecords records = .ok s) ↔
        (∀ r ∈ records, ∀ x ∈ r.resources, x.KeysOnce) ∧ Apart records) := by
  cases records with
  | nil => exact absurd rfl hne
  | cons r records => exact addRecords_merges merges_new fun key => List.nodup_nil

end State

/-! ### Records in another order -/

namespace Entries

variable {α : Type} {R : α → α → Prop} {es ds : Entries String α}

theorem get?_eq_none_of_lt {key : String} (h : ∀ e ∈ es, key < e.1) : get? key es = none := by
  refine get?_eq_none_iff.2 fun hmem => ?_
  obtain ⟨v, hv⟩ := mem_keys.1 hmem
  exact String.lt_irrefl _ (h _ hv)

theorem isSome_get?_cons (e : String × α) (es : Entries String α) :
    (get? e.1 (e :: es)).isSome = true := by
  rw [get?_cons, if_pos rfl]
  rfl

theorem isSome_eq_of_rel {a b : Option α} (h : Option.Rel R a b) : a.isSome = b.isSome := by
  cases h <;> rfl

/-- The first name of ascending entries is not above any name that they have. -/
theorem not_lt_of_get? {d e : String × α} {ds : Entries String α}
    (h : (d :: ds).Pairwise fun a b => a.1 < b.1) (he : (get? e.1 (d :: ds)).isSome) :
    ¬ e.1 < d.1 := by
  intro hlt
  have hnone : get? e.1 (d :: ds) = none := by
    refine get?_eq_none_of_lt (List.forall_mem_cons.2 ⟨hlt, fun c hc => ?_⟩)
    exact String.lt_trans hlt (List.rel_of_pairwise_cons h hc)
  rw [hnone] at he
  cases he

/-- Ascending entries with related values under every name are related one by one. -/
theorem forall₂_of_get? (hes : es.Pairwise fun a b => a.1 < b.1)
    (hds : ds.Pairwise fun a b => a.1 < b.1)
    (h : ∀ key, Option.Rel R (get? key es) (get? key ds)) : List.Forall₂ (Alike R) es ds := by
  induction es generalizing ds with
  | nil =>
    cases ds with
    | nil => exact .nil
    | cons d ds =>
      have hd := h d.1
      rw [get?_nil, get?_cons, if_pos rfl] at hd
      cases hd
  | cons e es ih =>
    cases ds with
    | nil =>
      have he := h e.1
      rw [get?_nil, get?_cons, if_pos rfl] at he
      cases he
    | cons d ds =>
      have hkey : e.1 = d.1 := by
        have he := not_lt_of_get? (e := e) hds (isSome_eq_of_rel (h e.1) ▸ isSome_get?_cons e es)
        have hd := not_lt_of_get? (e := d) hes
          ((isSome_eq_of_rel (h d.1)).symm ▸ isSome_get?_cons d ds)
        exact String.le_antisymm (String.not_lt.1 hd) (String.not_lt.1 he)
      refine .cons ⟨hkey, ?_⟩ (ih (List.pairwise_cons.1 hes).2 (List.pairwise_cons.1 hds).2 ?_)
      · have he := h e.1
        rw [get?_cons, if_pos rfl, get?_cons, if_pos hkey.symm] at he
        cases he with
        | some hr => exact hr
      · intro key
        by_cases hek : e.1 = key
        · rw [get?_eq_none_of_lt fun c hc => hek ▸ List.rel_of_pairwise_cons hes hc,
            get?_eq_none_of_lt fun c hc => hek ▸ hkey ▸ List.rel_of_pairwise_cons hds hc]
          exact .none
        · have hr := h key
          rwa [get?_cons, if_neg hek, get?_cons, if_neg (hkey ▸ hek)] at hr

end Entries

structure Module.Shuffled (m m' : Module) : Prop where
  path_eq : m.path = m'.path
  resources : m.resources.Perm m'.resources
  outputs : m.outputs.Perm m'.outputs

def State.Shuffled (s s' : State) : Prop :=
  List.Forall₂ (Entries.Alike Module.Shuffled) s.modules s'.modules

namespace StoredModule

variable {records shuffled : List StoredModule}

theorem listed_perm (names : StoredModule → List String) (h : records.Perm shuffled) :
    (listed names records).Perm (listed names shuffled) := h.flatMap_right _

theorem merged_shuffled (h : records.Perm shuffled)
    (hpaths : ∀ r ∈ records, ∀ r' ∈ records, r.path = r'.path)
    (hnames : (Entries.keys (records.flatMap outputs)).Nodup) :
    (merged records).Shuffled (merged shuffled) where
  path_eq := by
    cases records with
    | nil =>
      rw [List.nil_perm.1 h]
    | cons r records =>
      cases shuffled with
      | nil => exact absurd h.length_eq (by simp)
      | cons r' shuffled =>
        exact hpaths r List.mem_cons_self r' (h.mem_iff.2 List.mem_cons_self)
  resources := h.flatMap_right _
  outputs := by
    have hperm : (records.flatMap outputs).Perm (shuffled.flatMap outputs) := h.flatMap_right _
    rw [merged, merged, Entries.ofPairs_eq_self hnames,
      Entries.ofPairs_eq_self ((hperm.map Prod.fst).nodup_iff.1 hnames)]
    exact hperm

end StoredModule

namespace State

open StoredModule (addresses outputNames merged sharing)

variable {records shuffled : List StoredModule} {s s' : State}

/-- States that are merged from the same records in another order are the same, if every module has
one path and gives no name to two outputs. -/
theorem Merges.shuffled_of_perm (h : s.Merges records) (h' : s'.Merges shuffled)
    (hp : records.Perm shuffled)
    (hpaths : ∀ r ∈ records, ∀ r' ∈ records, r.path.text = r'.path.text → r.path = r'.path)
    (hnames : (outputNames records).Nodup) : s.Shuffled s' := by
  refine Entries.forall₂_of_get? h.ascending h'.ascending fun key => ?_
  have hkeys : (key = "" ∨ ∃ r ∈ records, r.path.text = key) ↔
      (key = "" ∨ ∃ r ∈ shuffled, r.path.text = key) := by
    simp only [hp.mem_iff]
  rw [h.module, h'.module]
  by_cases hkey : key = "" ∨ ∃ r ∈ records, r.path.text = key
  · rw [if_pos hkey, if_pos (hkeys.1 hkey)]
    refine .some (StoredModule.merged_shuffled (hp.filter _) ?_ ?_)
    · intro r hr r' hr'
      rw [StoredModule.mem_sharing] at hr hr'
      exact hpaths r hr.1 r' hr'.1 (hr.2.trans hr'.2.symm)
    · have hown := StoredModule.nodup_iff_forall_key.1 hnames key
      rw [outputNames, StoredModule.map_filter_listed] at hown
      rwa [Entries.keys, List.map_flatMap]
  · rw [if_neg hkey, if_neg (mt hkeys.2 hkey)]
    exact .none

theorem parse_eq_ofRecords {content : String} (h : parseRecords content = .ok records) :
    parse content = ofRecords records := by
  rw [parse, h]

theorem ofRecords_eq_error_iff (hne : records ≠ []) :
    (∃ e, ofRecords records = .error e) ↔
      (∃ r ∈ records, ∃ x ∈ r.resources, ¬ x.KeysOnce) ∨ ¬ (addresses records).Nodup := by
  have hok := (ofRecords_merges hne).2
  rw [StoredModule.apart_iff] at hok
  have hnot : (∃ e, ofRecords records = .error e) ↔ ¬ ∃ s, ofRecords records = .ok s := by
    cases ofRecords records <;> simp
  rw [hnot, hok, not_and_or]
  simp only [not_forall, exists_prop]

theorem exists_ofRecords_iff_of_perm (hp : records.Perm shuffled) :
    (∃ s, ofRecords records = .ok s) ↔ ∃ s, ofRecords shuffled = .ok s := by
  by_cases hnil : records = []
  · have hnil' : shuffled = [] := List.nil_perm.1 (hnil ▸ hp)
    rw [hnil, hnil']
  · have hnil' : shuffled ≠ [] := fun h => hnil (List.perm_nil.1 (h ▸ hp))
    rw [(ofRecords_merges hnil).2, (ofRecords_merges hnil').2, StoredModule.apart_iff,
      StoredModule.apart_iff, addresses, addresses, (StoredModule.listed_perm _ hp).nodup_iff]
    simp only [hp.mem_iff]

/-- A file with records describes a state unless a resource record repeats an instance key or two
records of one module have resources with one address, and then the modules of the state are merged
from the records. The order of the records decides neither whether they describe a state nor, if
every module has one path and no output twice, which one. -/
theorem parse_records {content : String} (h : parseRecords content = .ok records) :
    (records = [] → parse content = .ok empty) ∧
      (records ≠ [] →
        ((∃ e, parse content = .error e) ↔
          (∃ r ∈ records, ∃ x ∈ r.resources, ¬ x.KeysOnce) ∨ ¬ (addresses records).Nodup) ∧
        ∀ s, parse content = .ok s → s.Merges records) ∧
      ∀ content' shuffled, parseRecords content' = .ok shuffled → records.Perm shuffled →
        ((∃ s, parse content = .ok s) ↔ ∃ s, parse content' = .ok s) ∧
        ((∀ r ∈ records, ∀ r' ∈ records, r.path.text = r'.path.text → r.path = r'.path) →
          (outputNames records).Nodup →
          ∀ s s', parse content = .ok s → parse content' = .ok s' → s.Shuffled s') := by
  rw [parse_eq_ofRecords h]
  refine ⟨fun hnil => hnil ▸ rfl,
    fun hne => ⟨ofRecords_eq_error_iff hne, (ofRecords_merges hne).1⟩, ?_⟩
  intro content' shuffled h' hp
  rw [parse_eq_ofRecords h']
  refine ⟨exists_ofRecords_iff_of_perm hp, fun hpaths hnames s s' hs hs' => ?_⟩
  by_cases hnil : records = []
  · have hnil' : shuffled = [] := List.nil_perm.1 (hnil ▸ hp)
    rw [hnil] at hs
    rw [hnil'] at hs'
    cases Except.ok.inj hs
    cases Except.ok.inj hs'
    exact .nil
  · have hnil' : shuffled ≠ [] := fun h => hnil (List.perm_nil.1 (h ▸ hp))
    exact Merges.shuffled_of_perm ((ofRecords_merges hnil).1 s hs)
      ((ofRecords_merges hnil').1 s' hs') hp hpaths hnames

def interleaved : String :=
  "\x7b\"modules\":[[[\"m\"],[[\"data\",\"t\",\"a\",\"p\",[[0,\"tainted\"],[\"0\"]]]]],[]," ++
    "[[\"m\"],[[\"managed\",\"t\",\"a\",\"p\"]]]]\x7d"

theorem parse_records_interleaved :
    ∃ records s, parseRecords interleaved = .ok records ∧ parse interleaved = .ok s ∧
      records.map (fun r => r.path.steps) = [["m"], [], ["m"]] ∧
      Entries.keys s.modules = ["", "module.m"] ∧ s.Merges records := by
  obtain ⟨records, hrecords, hpaths⟩ : ∃ records, parseRecords interleaved = .ok records ∧
      (records.map (fun r => r.path.steps),
        (ofRecords records).toOption.map fun s => Entries.keys s.modules) =
          ([["m"], [], ["m"]], some ["", "module.m"]) :=
    exists_of_map_toOption (by decide +kernel)
  obtain ⟨hpaths, hkeys⟩ := Prod.mk.inj hpaths
  obtain ⟨s, hs, hkeys⟩ := exists_of_map_toOption hkeys
  have hne : records ≠ [] := by
    rintro rfl
    cases hpaths
  rw [← parse_eq_ofRecords hrecords] at hs
  exact ⟨records, s, hrecords, hs, hpaths, hkeys, ((parse_records hrecords).2.1 hne).2 s hs⟩

end State

end StateText
