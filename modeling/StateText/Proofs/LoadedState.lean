import Mathlib.Data.List.Nodup
import StateText.Proofs.MergedRecords

/-!
# States from files

What holds of every state that a file describes, whatever its names are: `filed_of_parse`. No two
instances of such a state agree in the texts of their modules, the texts of their resources and
their keys. Their full addresses are apart if no name has a dot or a bracket in it; a name that has
one can make the address of its resource look like that of an instance of another.
-/

namespace StateText

namespace Json.Reader

variable {α σ : Type}

theorem mismatch_ne_ok {expected : String} {cs : List Char} {p : α × List Char} :
    mismatch expected cs ≠ .ok p := by
  intro h
  rw [mismatch] at h
  split at h
  · cases h
  · split_ifs at h
    split at h <;> cases h

theorem list_forall {P : α → Prop} {element : Nat → Reader α} {depth : Nat}
    (h : ∀ d < depth, ∀ cs a rest, element d cs = .ok (a, rest) → P a)
    {cs rest : List Char} {as : List α} (hr : list element depth cs = .ok (as, rest)) :
    ∀ a ∈ as, P a := by
  rw [list] at hr
  split at hr
  · split at hr
    · cases hr
    next depth =>
      obtain ⟨⟨bs, _⟩, hbs, he⟩ := map_eq_ok hr
      exact (Prod.mk.inj he).1 ▸ elements_forall (h depth (Nat.lt_succ_self depth)) hbs
  · exact absurd hr mismatch_ne_ok

theorem next_eq_ok_some {first : Bool} {element : Reader α} {cs rest : List Char} {a : α}
    (h : next first element cs = .ok (some a, rest)) : ∃ ds, element ds = .ok (a, rest) := by
  have hmore {ds : List Char}
      (hd : ((element ds).map fun p => (some p.1, p.2)) = .ok (some a, rest)) :
      ∃ ds, element ds = .ok (a, rest) := by
    obtain ⟨⟨b, _⟩, hb, he⟩ := map_eq_ok hd
    obtain ⟨hb', rfl⟩ := Prod.mk.inj he
    exact ⟨ds, Option.some.inj hb' ▸ hb⟩
  rw [next] at h
  split at h
  · cases h
  · split_ifs at h
    · cases h
    · exact hmore h
    · split at h
      · cases h
      · split_ifs at h
        exact hmore h

theorem nextOr_forall {P : α → Prop} {index : Nat} {default : α} {element : Reader α}
    (hdefault : P default) (h : ∀ cs a rest, element cs = .ok (a, rest) → P a)
    {cs rest : List Char} {a : α} (hr : nextOr index default element cs = .ok (a, rest)) : P a := by
  obtain ⟨⟨b, _⟩, hb, he⟩ := map_eq_ok hr
  obtain ⟨rfl, rfl⟩ := Prod.mk.inj he
  cases b with
  | none => exact hdefault
  | some b =>
    obtain ⟨ds, hds⟩ := next_eq_ok_some hb
    exact h ds b _ hds

theorem once_eq_ok {name : String} {old : Option α} {value : Reader α} {store : α → σ}
    {cs rest : List Char} {s : σ} (h : once name old value store cs = .ok (s, rest)) :
    ∃ ds a, value ds = .ok (a, rest) ∧ store a = s := by
  unfold once at h
  split at h
  · cases h
  · split at h
    · cases h
    next ds _ =>
      obtain ⟨⟨a, _⟩, ha, he⟩ := map_eq_ok h
      obtain ⟨rfl, rfl⟩ := Prod.mk.inj he
      exact ⟨ds, a, ha, rfl⟩

theorem skipMember_eq_ok {s s' : σ} {cs rest : List Char}
    (h : skipMember s cs = .ok (s', rest)) : s' = s := by
  rw [skipMember] at h
  split at h
  · cases h
  · obtain ⟨_, _, he⟩ := map_eq_ok h
    exact (Prod.mk.inj he).1.symm

/-- What a record gives has a property that its list gives it, and that its members do not lose on
the way to it. -/
theorem record_forall {shape : Shape σ α} {P : σ → Prop} {Q : α → Prop} {depth : Nat}
    (hstart : P shape.start)
    (hmember : ∀ d < depth, ∀ s name cs s' rest, P s →
      shape.member d s name cs = .ok (s', rest) → P s')
    (hfinish : ∀ s a, P s → shape.finish s = .ok a → Q a)
    (hsequence : ∀ d < depth, ∀ cs a rest, shape.sequence d cs = .ok (a, rest) → Q a)
    {cs rest : List Char} {a : α} (hr : record shape depth cs = .ok (a, rest)) : Q a := by
  rw [record] at hr
  split at hr
  · split at hr
    · cases hr
    next d =>
      rw [Shape.ofList] at hr
      split at hr
      · cases hr
      next hs =>
        obtain ⟨_, _, he⟩ := map_eq_ok hr
        exact (Prod.mk.inj he).1 ▸ hsequence d (Nat.lt_succ_self d) _ _ _ hs
  · split at hr
    · cases hr
    next d =>
      rw [Shape.ofObject] at hr
      split at hr
      · cases hr
      next hs =>
        split at hr
        · cases hr
        next ha =>
          cases hr
          exact hfinish _ _ (members_invariant (hmember d (Nat.lt_succ_self d)) hstart hs) ha
  · exact absurd hr mismatch_ne_ok

end Json.Reader

open Json.Reader

/-! ### Resources of records -/

theorem StoredModule.resources_forall {P : StoredResource → Prop} {depth : Nat}
    (h : ∀ d < depth, ∀ cs r rest, record StoredResource.shape d cs = .ok (r, rest) → P r)
    {cs rest : List Char} {m : StoredModule}
    (hr : record StoredModule.shape depth cs = .ok (m, rest)) : ∀ r ∈ m.resources, P r := by
  have hresources {d : Nat} (hd : d < depth) {cs rest : List Char} {rs : List StoredResource}
      (hr : resourcesReader d cs = .ok (rs, rest)) : ∀ r ∈ rs, P r :=
    list_forall (fun d' hd' => h d' (hd'.trans hd)) hr
  refine record_forall (Q := fun m => ∀ r ∈ m.resources, P r)
    (P := fun fields => ∀ rs ∈ fields.resources, ∀ r ∈ rs, P r) ?_ ?_ ?_ ?_ hr
  · intro rs hrs
    cases hrs
  · intro d hd fields name cs fields' rest hfields hm
    simp only [shape] at hm
    split at hm
    · obtain ⟨_, _, _, rfl⟩ := once_eq_ok hm
      exact hfields
    · obtain ⟨_, rs, hrs, rfl⟩ := once_eq_ok hm
      intro rs' hrs'
      cases hrs'
      exact hresources hd hrs
    · obtain ⟨_, _, _, rfl⟩ := once_eq_ok hm
      exact hfields
    · rwa [skipMember_eq_ok hm]
  · intro fields m hfields hm
    cases hm
    cases hrs : fields.resources with
    | none => exact fun r hr => absurd hr List.not_mem_nil
    | some rs => exact hfields rs hrs
  · intro d hd cs m rest hm
    simp only [shape, bind, Except.bind, pure, Except.pure] at hm
    repeat' split at hm
    all_goals cases hm
    next hrs _ _ _ =>
      exact nextOr_forall (fun r hr => absurd hr List.not_mem_nil) (fun _ _ _ => hresources hd) hrs

/-- What holds of the resources as they are read holds of those in the records of a file. -/
theorem State.resources_forall {P : StoredResource → Prop}
    (h : ∀ d < depthLimit, ∀ cs r rest, record StoredResource.shape d cs = .ok (r, rest) → P r)
    {content : String} {records : List StoredModule} (hr : parseRecords content = .ok records) :
    ∀ m ∈ records, ∀ r ∈ m.resources, P r := by
  have hmodules {d : Nat} (hd : d < depthLimit) {cs rest : List Char} {ms : List StoredModule}
      (hm : list (record StoredModule.shape) d cs = .ok (ms, rest)) :
      ∀ m ∈ ms, ∀ r ∈ m.resources, P r :=
    list_forall (fun d' hd' _ _ _ => StoredModule.resources_forall
      fun d'' hd'' => h d'' (hd''.trans (hd'.trans hd))) hm
  rw [parseRecords, document] at hr
  split at hr
  · cases hr
  next ms rest hms =>
    split at hr
    · cases hr
      refine record_forall (Q := fun ms => ∀ m ∈ ms, ∀ r ∈ m.resources, P r)
        (P := fun read => ∀ ms ∈ read, ∀ m ∈ ms, ∀ r ∈ m.resources, P r) ?_ ?_ ?_ ?_ hms
      · intro ms hms
        cases hms
      · intro d hd read name cs read' rest hread hm
        simp only [recordsShape] at hm
        split at hm
        · obtain ⟨_, ms, hms, rfl⟩ := once_eq_ok hm
          intro ms' hms'
          cases hms'
          exact hmodules hd hms
        · rwa [skipMember_eq_ok hm]
      · intro read ms hread hm
        cases hm
        cases read with
        | none => exact fun m hm => absurd hm List.not_mem_nil
        | some ms => exact hread ms rfl
      · intro d hd cs ms rest hm
        exact nextOr_forall (fun m hm => absurd hm List.not_mem_nil) (fun _ _ _ => hmodules hd) hm
    · cases hr

def Mode.IsRead (mode : Mode) : Prop := ofWord mode.word = mode

theorem Mode.isRead_ofWord (word : String) : (ofWord word).IsRead := by
  rw [IsRead, word_ofWord]

theorem StoredResource.isRead_of_record {depth : Nat} {cs rest : List Char} {r : StoredResource}
    (h : record StoredResource.shape depth cs = .ok (r, rest)) : r.address.mode.IsRead := by
  refine record_forall (P := fun _ => True) (Q := fun r => r.address.mode.IsRead) trivial
    (fun _ _ _ _ _ _ _ _ _ => trivial) ?_ ?_ h
  · intro fields r _ hr
    simp only [shape, bind, Except.bind, pure, Except.pure] at hr
    repeat' split at hr
    all_goals cases hr
    exact Mode.isRead_ofWord _
  · intro d _ cs r rest hr
    simp only [shape, bind, Except.bind, pure, Except.pure] at hr
    repeat' split at hr
    all_goals cases hr
    exact Mode.isRead_ofWord _

namespace State

open StoredModule (Apart merged sharing mem_sharing)

/-- Every module and every resource stands under the text of its address, no resource has two
instances under one key, and the modes are as they are read. -/
structure Filed (s : State) : Prop extends s.Keyed where
  paths : ∀ m ∈ s.modules, m.2.path.text = m.1
  addresses : ∀ m ∈ s.modules, ∀ r ∈ m.2.resources, r.2.address.text = r.1
  instances : ∀ m ∈ s.modules, ∀ r ∈ m.2.resources, (Entries.keys r.2.instances).Nodup
  modes : ∀ m ∈ s.modules, ∀ r ∈ m.2.resources, r.2.address.mode.IsRead

theorem Merges.eq_merged {records : List StoredModule} {s : State} (h : s.Merges records)
    {m : String × Module} (hm : m ∈ s.modules) :
    m.2 = merged (sharing m.1 records) := by
  have hget : Entries.get? m.1 s.modules = some m.2 :=
    (Entries.get?_eq_some_iff (Entries.nodup_keys_of_ascending h.ascending)).2 hm
  rw [h.module, if_pos (h.mem_keys.1 (Entries.mem_keys.2 ⟨m.2, hm⟩))] at hget
  exact (Option.some.inj hget).symm

theorem Merges.filed {records : List StoredModule} {s : State} (h : s.Merges records)
    (hapart : Apart records) (honce : ∀ r ∈ records, ∀ x ∈ r.resources, x.KeysOnce)
    (hread : ∀ r ∈ records, ∀ x ∈ r.resources, x.address.mode.IsRead) : s.Filed := by
  have hresource {m : String × Module} {r : String × Resource} (hm : m ∈ s.modules)
      (hr : r ∈ m.2.resources) :
      ∃ record ∈ records, ∃ x ∈ record.resources, x.entry = r := by
    rw [h.eq_merged hm] at hr
    obtain ⟨record, hrecord, hx⟩ := List.mem_flatMap.1 hr
    exact ⟨record, (mem_sharing.1 hrecord).1, List.mem_map.1 hx⟩
  refine ⟨⟨h.ascending, fun m hm => ?_⟩, fun m hm => ?_, fun m hm r hr => ?_,
    fun m hm r hr => ?_, fun m hm r hr => ?_⟩
  · rw [h.eq_merged hm]
    exact hapart m.1
  · rw [h.eq_merged hm]
    cases hrecords : sharing m.1 records with
    | nil =>
      have hroot := h.mem_keys.1 (Entries.mem_keys.2 ⟨m.2, hm⟩)
      exact (hroot.resolve_right (StoredModule.sharing_eq_nil_iff.1 hrecords)).symm
    | cons record rest => exact (mem_sharing.1 (hrecords ▸ List.mem_cons_self)).2
  · obtain ⟨_, _, x, _, rfl⟩ := hresource hm hr
    rfl
  · obtain ⟨record, hrecord, x, hx, rfl⟩ := hresource hm hr
    have hkeys := honce record hrecord x hx
    rwa [StoredResource.KeysOnce, ← StoredResource.keys_stored] at hkeys
  · obtain ⟨record, hrecord, x, hx, rfl⟩ := hresource hm hr
    exact hread record hrecord x hx

theorem filed_of_parse {content : String} {s : State} (h : parse content = .ok s) : s.Filed := by
  rw [parse] at h
  split at h
  · cases h
  next records hrecords =>
    by_cases hnil : records = []
    · subst hnil
      cases h
      have hnone {P : String × Module → Prop} : ∀ m ∈ empty.modules, P m :=
        fun m hm => absurd hm List.not_mem_nil
      exact ⟨⟨.nil, hnone⟩, hnone, hnone, hnone, hnone⟩
    · obtain ⟨honce, hapart⟩ := (ofRecords_merges hnil).2.1 ⟨s, h⟩
      exact ((ofRecords_merges hnil).1 s h).filed hapart honce
        (resources_forall (fun _ _ _ _ _ => StoredResource.isRead_of_record) hrecords)

end State

/-! ### Addresses of instances -/

/-- Groups without repetitions have none together, if each marks its elements with a key of its
own. -/
theorem nodup_flatMap_of_mark {α β κ : Type} {f : α → List β} (key : α → κ) (mark : β → κ)
    {as : List α} (hkeys : (as.map key).Nodup) (hmark : ∀ a ∈ as, ∀ b ∈ f a, mark b = key a)
    (heach : ∀ a ∈ as, (f a).Nodup) : (as.flatMap f).Nodup := by
  refine List.nodup_flatMap.2 ⟨heach, ?_⟩
  refine (List.pairwise_map.1 hkeys).imp_of_mem fun ha ha' hne b hb hb' => hne ?_
  rw [← hmark _ ha b hb, hmark _ ha' b hb']

theorem nodup_map_of_nodup_map {α β γ : Type} {f : α → β} {g : α → γ} {as : List α}
    (h : (as.map f).Nodup) (hg : ∀ a ∈ as, ∀ b ∈ as, g a = g b → f a = f b) :
    (as.map g).Nodup :=
  List.pairwise_map.2 <| (List.pairwise_map.1 h).imp_of_mem fun ha hb hne heq =>
    hne (hg _ ha _ hb heq)

/-- In one resource, the key can be told from the address. -/
theorem key_eq_of_instanceAddress {module : ModulePath} {resource : ResourceAddress}
    {k k' : InstanceKey}
    (h : instanceAddress module resource k = instanceAddress module resource k') : k = k' :=
  InstanceKey.text_injective ((String.append_right_inj _).1 h)

def Located.parts (l : Located) : String × String × InstanceKey :=
  (l.module.text, l.resource.text, l.key)

theorem Resource.nodup_parts_located (module : ModulePath) {r : Resource}
    (h : (Entries.keys r.instances).Nodup) : ((r.located module).map Located.parts).Nodup := by
  have hparts : (r.located module).map Located.parts =
      (Entries.keys r.instances).map fun key => (module.text, r.address.text, key) := by
    rw [located, Entries.keys, List.map_map, List.map_map]
    rfl
  rw [hparts]
  exact List.Nodup.map (fun _ _ heq => (Prod.mk.inj (Prod.mk.inj heq).2).2) h

namespace State

theorem Filed.nodup_parts {s : State} (h : s.Filed) : (s.located.map Located.parts).Nodup := by
  have hmodule {m : String × Module} (hm : m ∈ s.modules) :
      (m.2.located.map Located.parts).Nodup := by
    rw [Module.located_eq_flatMap, List.map_flatMap]
    refine nodup_flatMap_of_mark Prod.fst (fun p => p.2.1) ?_ ?_ ?_
    · exact ((Entries.sortBy_perm _ _).map Prod.fst).nodup_iff.2 (h.resources m hm)
    · intro r hr p hp
      obtain ⟨l, hl, rfl⟩ := List.mem_map.1 hp
      obtain ⟨e, _, rfl⟩ := List.mem_map.1 hl
      exact h.addresses m hm r (Entries.mem_sortBy.1 hr)
    · intro r hr
      exact Resource.nodup_parts_located _ (h.instances m hm r (Entries.mem_sortBy.1 hr))
  rw [located, moduleList, List.flatMap_map, List.map_flatMap]
  refine nodup_flatMap_of_mark Prod.fst Prod.fst ?_ ?_ fun m hm => hmodule hm
  · exact Entries.nodup_keys_of_ascending h.modules
  · intro m hm p hp
    obtain ⟨l, hl, rfl⟩ := List.mem_map.1 hp
    obtain ⟨r, _, hl⟩ := Module.mem_located.1 hl
    obtain ⟨e, _, rfl⟩ := List.mem_map.1 hl
    exact h.paths m hm

def Unmarked (s : State) : Prop :=
  ∀ m ∈ s.modules, (∀ step ∈ m.2.path.steps, IsSegment step) ∧
    ∀ r ∈ m.2.resources, IsSegment r.2.address.mode.word ∧ IsSegment r.2.address.type ∧
      IsSegment r.2.address.name

theorem Filed.parts_eq_of_address {s : State} (h : s.Filed) (hs : s.Unmarked) {l k : Located}
    (hl : l ∈ s.located) (hk : k ∈ s.located) (heq : l.address = k.address) :
    l.parts = k.parts := by
  have hplain {l : Located} (hl : l ∈ s.located) :
      (∀ step ∈ l.module.steps, IsSegment step) ∧ l.resource.IsPlain := by
    obtain ⟨m, hm, r, hr, hl⟩ := mem_located.1 hl
    obtain ⟨e, _, rfl⟩ := List.mem_map.1 hl
    obtain ⟨hmode, htype, hname⟩ := (hs m hm).2 r hr
    exact ⟨(hs m hm).1, hmode, htype, hname, h.modes m hm r hr⟩
  obtain ⟨hmodule, hresource, hkey⟩ := instanceAddress_parts (hplain hl).1 (hplain hk).1
    (hplain hl).2 (hplain hk).2 heq
  rw [Located.parts, hmodule, hresource, hkey, Located.parts]

/-- The instances of a state from a file differ in their modules, their resources or their keys, so
two of one resource never have one address. Addresses are apart in the whole state if no name has a
dot or a bracket in it. -/
theorem addresses_of_parse {content : String} {s : State} (h : parse content = .ok s) :
    (s.located.map Located.parts).Nodup ∧
      (∀ m ∈ s.modules, ∀ r ∈ m.2.resources,
        ((r.2.located m.2.path).map Located.address).Nodup) ∧
      (s.Unmarked → (s.located.map Located.address).Nodup) := by
  have hs := filed_of_parse h
  refine ⟨hs.nodup_parts, fun m hm r hr => ?_, fun hunmarked => ?_⟩
  · refine nodup_map_of_nodup_map
      (Resource.nodup_parts_located m.2.path (hs.instances m hm r hr)) ?_
    intro l hl k hk heq
    obtain ⟨e, _, rfl⟩ := List.mem_map.1 hl
    obtain ⟨d, _, rfl⟩ := List.mem_map.1 hk
    have hkey : e.1 = d.1 := key_eq_of_instanceAddress heq
    rw [Located.parts, Located.parts, hkey]
  · exact nodup_map_of_nodup_map hs.nodup_parts fun l hl k hk =>
      hs.parts_eq_of_address hunmarked hl hk

instance (s : State) : Decidable s.Unmarked :=
  inferInstanceAs (Decidable (∀ m ∈ s.modules, (∀ step ∈ m.2.path.steps, IsSegment step) ∧
    ∀ r ∈ m.2.resources, IsSegment r.2.address.mode.word ∧ IsSegment r.2.address.type ∧
      IsSegment r.2.address.name))

theorem addresses_of_parse_interleaved :
    ∃ s, parse interleaved = .ok s ∧ s.Unmarked ∧
      s.located.map Located.address =
        ["module.m.data.t.a[0]", "module.m.data.t.a[\"0\"]"] ∧
      (s.located.map Located.address).Nodup := by
  obtain ⟨s, hs, heq⟩ : ∃ s, parse interleaved = .ok s ∧
      (decide s.Unmarked, s.located.map Located.address) =
        (true, ["module.m.data.t.a[0]", "module.m.data.t.a[\"0\"]"]) :=
    exists_of_map_toOption (by decide +kernel)
  obtain ⟨hunmarked, haddresses⟩ := Prod.mk.inj heq
  have hunmarked : s.Unmarked := of_decide_eq_true hunmarked
  exact ⟨s, hs, hunmarked, haddresses, (addresses_of_parse hs).2.2 hunmarked⟩

def bracketed : String :=
  "\x7b\"modules\":[[[],[[\"managed\",\"t\",\"n\",\"p\",[[0]]]," ++
    "[\"managed\",\"t\",\"n[0]\",\"p\",[[]]]]]]\x7d"

theorem repeated_address_bracketed :
    ∃ s, parse bracketed = .ok s ∧ s.located.map Located.address = ["t.n[0]", "t.n[0]"] ∧
      ¬ (s.located.map Located.address).Nodup := by
  obtain ⟨s, hs, haddresses⟩ : ∃ s, parse bracketed = .ok s ∧
      s.located.map Located.address = ["t.n[0]", "t.n[0]"] :=
    exists_of_map_toOption (by decide +kernel)
  exact ⟨s, hs, haddresses, by rw [haddresses]; decide⟩

end State

end StateText
