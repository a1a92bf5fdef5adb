import StateText.Address
import StateText.Proofs.Ends
import StateText.Proofs.JsonString
import StateText.Proofs.LiteralReader

/-!
# Addresses apart

The text of an address is its segments with dots between them and the key of the instance behind.
If no name has a dot or a bracket in it, the text tells the address, as `instanceAddress_eq_iff`
says: the key starts at the first bracket, and the number of segments is odd only with a mode in
front of the type.
-/

namespace StateText

def IsSegment (name : String) : Prop := ∀ c ∈ name.toList, c ≠ '.' ∧ c ≠ '['

-- over the characters of the name and not over all characters, for which there is an instance too
instance (name : String) : Decidable (IsSegment name) :=
  List.decidableBAll (fun c => c ≠ '.' ∧ c ≠ '[') name.toList

theorem IsIdentifier.isSegment {name : String} (h : IsIdentifier name) : IsSegment name :=
  fun _ hc => ⟨h.ne_of_mem hc (by decide), h.ne_of_mem hc (by decide)⟩

theorem intercalate_injective {as bs : List String} (ha : ∀ a ∈ as, IsSegment a)
    (hb : ∀ b ∈ bs, IsSegment b) (hane : as ≠ []) (hbne : bs ≠ [])
    (h : ".".intercalate as = ".".intercalate bs) : as = bs := by
  have hsplit : ∀ names : List String, (∀ n ∈ names, IsSegment n) → names ≠ [] →
      (".".intercalate names).toList.splitOn '.' = names.map String.toList := by
    intro names hall hne
    rw [String.toList_intercalate]
    refine List.splitOn_intercalate '.' ?_ (by simpa using hne)
    intro cs hcs hdot
    obtain ⟨n, hn, rfl⟩ := List.mem_map.1 hcs
    exact (hall n hn '.' hdot).1 rfl
  have hmap := hsplit as ha hane
  rw [h, hsplit bs hb hbne] at hmap
  exact ((List.map_inj_right fun _ _ hs => String.toList_injective hs).1 hmap).symm

namespace ModulePath

def segments (path : ModulePath) : List String := path.steps.flatMap fun step => ["module", step]

theorem text_eq_intercalate (path : ModulePath) : path.text = ".".intercalate path.segments := by
  unfold text segments
  induction path.steps with
  | nil => rfl
  | cons step steps ih =>
    cases steps with
    | nil => simp
    | cons next steps =>
      rw [List.map_cons, String.intercalate_cons_of_ne_nil (by simp), ih, List.flatMap_cons]
      simp [String.append_assoc]

/-- Only the path of the root has no text. -/
theorem eq_root_of_text {path : ModulePath} (h : path.text = "") : path = root := by
  obtain ⟨steps⟩ := path
  cases steps with
  | nil => rfl
  | cons step steps =>
    rw [text, List.map_cons] at h
    cases steps with
    | nil => simp at h
    | cons next steps => simp [String.intercalate_cons_of_ne_nil] at h

theorem length_segments (path : ModulePath) : path.segments.length = 2 * path.steps.length := by
  unfold segments
  induction path.steps with
  | nil => rfl
  | cons step steps ih =>
    rw [List.flatMap_cons, List.length_append, ih, @List.length_cons _ step steps, Nat.mul_succ,
      Nat.add_comm]
    rfl

theorem segments_injective {p q : ModulePath} (h : p.segments = q.segments) : p = q := by
  obtain ⟨ps⟩ := p
  obtain ⟨qs⟩ := q
  unfold segments at h
  dsimp only at h
  congr 1
  induction ps generalizing qs with
  | nil =>
    cases qs with
    | nil => rfl
    | cons q qs => simp at h
  | cons p ps ih =>
    cases qs with
    | nil => simp at h
    | cons q qs =>
      obtain ⟨hp, hps⟩ : p = q ∧ _ := by simpa using h
      rw [hp, ih qs hps]

theorem isSegment_of_mem_segments {path : ModulePath} (h : ∀ step ∈ path.steps, IsSegment step) :
    ∀ s ∈ path.segments, IsSegment s := by
  intro s hs
  obtain ⟨step, hstep, hs⟩ := List.mem_flatMap.1 hs
  rcases List.mem_cons.1 hs with rfl | hs
  · exact IsIdentifier.isSegment rfl
  · rw [List.mem_singleton.1 hs]
    exact h step hstep

theorem text_injective {p q : ModulePath} (hp : ∀ step ∈ p.steps, IsSegment step)
    (hq : ∀ step ∈ q.steps, IsSegment step) (h : p.text = q.text) : p = q := by
  by_cases hroot : p.text = ""
  · rw [eq_root_of_text hroot, eq_root_of_text (h.symm.trans hroot)]
  · have hne {path : ModulePath} (ht : path.text ≠ "") : path.segments ≠ [] := by
      intro hnil
      rw [text_eq_intercalate, hnil] at ht
      exact ht rfl
    have hroot' : q.text ≠ "" := h ▸ hroot
    rw [text_eq_intercalate, text_eq_intercalate] at h
    exact segments_injective (intercalate_injective (isSegment_of_mem_segments hp)
      (isSegment_of_mem_segments hq) (hne hroot) (hne hroot') h)

end ModulePath

namespace ResourceAddress

def segments (a : ResourceAddress) : List String :=
  match a.mode with
  | .managed => [a.type, a.name]
  | mode => [mode.word, a.type, a.name]

theorem text_eq_intercalate (a : ResourceAddress) : a.text = ".".intercalate a.segments := by
  unfold text segments
  cases a.mode <;> simp [Mode.word, String.append_assoc]

theorem length_segments (a : ResourceAddress) :
    a.segments.length = 2 ∨ a.segments.length = 3 := by
  unfold segments
  cases a.mode <;> simp

theorem segments_ne_nil (a : ResourceAddress) : a.segments ≠ [] := by
  unfold segments
  cases a.mode <;> simp

theorem mem_segments {a : ResourceAddress} {s : String} (h : s ∈ a.segments) :
    s = a.mode.word ∨ s = a.type ∨ s = a.name := by
  unfold segments at h
  cases hm : a.mode <;> rw [hm] at h <;> simp_all

/-- With two segments a resource is managed, with three the first is the word of its mode. -/
theorem segments_injective {a b : ResourceAddress} (ha : Mode.ofWord a.mode.word = a.mode)
    (hb : Mode.ofWord b.mode.word = b.mode) (h : a.segments = b.segments) : a = b := by
  obtain ⟨m, t, n⟩ := a
  obtain ⟨m', t', n'⟩ := b
  dsimp only at ha hb
  have hword : m.word = m'.word ∧ t = t' ∧ n = n' := by
    cases m <;> cases m' <;> simp_all [segments, Mode.word]
  obtain ⟨hw, rfl, rfl⟩ := hword
  rw [← ha, ← hb, hw]

end ResourceAddress

theorem numeral_repr (i : Int) : Number.Numeral (Int.repr i).toList := by
  rw [Int.repr_eq_if]
  split_ifs
  · rw [Nat.toList_repr]
    exact Number.numeral_toDigits _
  · rw [String.toList_append, Nat.toList_repr]
    exact .cons (by decide) (Number.numeral_toDigits _).forall_isNumeral

theorem toDigits_injective {m n : Nat} (h : Nat.toDigits 10 m = Nat.toDigits 10 n) : m = n := by
  have hvalue := congrArg (fun cs => Nat.ofDigitChars 10 cs 0) h
  simpa only [Nat.ofDigitChars_ten_toDigits] using hvalue

theorem toDigits_ne_minus (m : Nat) (cs : List Char) : Nat.toDigits 10 m ≠ '-' :: cs := by
  intro h
  have hdigit : '-'.isDigit = true :=
    Nat.isDigit_of_mem_toDigits (by decide) (by decide) (h ▸ List.mem_cons_self)
  exact absurd hdigit (by decide)

theorem repr_injective {i j : Int} (h : (Int.repr i).toList = (Int.repr j).toList) : i = j := by
  have hneg (n : Nat) : ("-" ++ n.repr).toList = '-' :: Nat.toDigits 10 n := by
    rw [String.toList_append, Nat.toList_repr]
    rfl
  rw [Int.repr_eq_if, Int.repr_eq_if] at h
  split_ifs at h with hi hj hj
  · have hn := toDigits_injective (by simpa only [Nat.toList_repr] using h)
    omega
  · rw [hneg, Nat.toList_repr] at h
    exact absurd h (toDigits_ne_minus _ _)
  · rw [hneg, Nat.toList_repr] at h
    exact absurd h.symm (toDigits_ne_minus _ _)
  · rw [hneg, hneg] at h
    have hn := toDigits_injective (List.cons.inj h).2
    omega

namespace InstanceKey

def inner : InstanceKey → Option (List Char)
  | none => Option.none
  | int i => some (Int.repr i).toList
  | str s => some (Json.stringChars s.toList)

theorem toList_text (k : InstanceKey) :
    k.text.toList = k.inner.elim [] fun cs => '[' :: cs ++ [']'] := by
  cases k with
  | none => rfl
  | int i => simp [text, inner]
  | str s => simp [text, inner, Json.renderString]

/-- A number has no quote in it. -/
theorem repr_ne_stringChars (i : Int) (cs : List Char) :
    (Int.repr i).toList ≠ Json.stringChars cs := by
  intro h
  have hquote := (numeral_repr i).forall_isNumeral '"' (h ▸ List.mem_cons_self)
  exact absurd hquote (by decide)

theorem inner_injective {k k' : InstanceKey} (h : k.inner = k'.inner) : k = k' := by
  cases k with
  | none => cases k' <;> first | rfl | cases h
  | int i =>
    cases k' with
    | none => cases h
    | int j => rw [repr_injective (Option.some.inj h)]
    | str s => exact absurd (Option.some.inj h) (repr_ne_stringChars i _)
  | str s =>
    cases k' with
    | none => cases h
    | int j => exact absurd (Option.some.inj h).symm (repr_ne_stringChars j _)
    | str s' =>
      have hchars := congrArg String.ofList (Option.some.inj h)
      rw [Json.renderString_injective hchars]

theorem text_injective {k k' : InstanceKey} (h : k.text = k'.text) : k = k' := by
  apply inner_injective
  have hlist := congrArg String.toList h
  rw [toList_text, toList_text] at hlist
  cases hk : k.inner with
  | none =>
    rw [hk] at hlist
    cases hk' : k'.inner with
    | none => rfl
    | some cs' =>
      rw [hk'] at hlist
      cases hlist
  | some cs =>
    rw [hk] at hlist
    cases hk' : k'.inner with
    | none =>
      rw [hk'] at hlist
      cases hlist
    | some cs' =>
      rw [hk'] at hlist
      exact congrArg some (List.append_cancel_right (List.cons.inj hlist).2)

theorem ne_lineFeed_of_mem_text {k : InstanceKey} {c : Char} (hc : c ∈ k.text.toList) :
    c ≠ '\n' := by
  have hinner : ∀ cs ∈ k.inner, ∀ d ∈ cs, d ≠ '\n' := by
    intro cs hcs d hd
    cases k with
    | none => cases hcs
    | int i =>
      rw [← Option.some.inj hcs] at hd
      rintro rfl
      exact absurd ((numeral_repr i).forall_isNumeral _ hd) (by decide)
    | str s =>
      rw [← Option.some.inj hcs] at hd
      exact Json.ne_lineFeed_of_mem_stringChars hd
  rw [toList_text] at hc
  cases hk : k.inner with
  | none =>
    rw [hk] at hc
    cases hc
  | some cs =>
    rw [hk, Option.elim_some, List.mem_append, List.mem_cons] at hc
    rcases hc with (rfl | hc) | hc
    · decide
    · exact hinner cs hk c hc
    · rw [List.mem_singleton.1 hc]
      decide

/-- Only a string may bring a colon into the text of a key. -/
theorem colon_mem_text_iff {k : InstanceKey} :
    ':' ∈ k.text.toList ↔ ∃ s, k = .str s ∧ ':' ∈ s.toList := by
  rw [toList_text]
  cases k with
  | none => simp [inner]
  | int i =>
    have hcolon : ':' ∉ (Int.repr i).toList := by
      intro h
      exact absurd ((numeral_repr i).forall_isNumeral _ h) (by decide)
    simp [inner, hcolon]
  | str s => simp [inner, Json.colon_mem_stringChars_iff]

theorem head?_text (k : InstanceKey) : ∀ c ∈ k.text.toList.head?, c = '[' := by
  intro c hc
  rw [toList_text] at hc
  cases hk : k.inner with
  | none =>
    rw [hk] at hc
    cases hc
  | some cs =>
    rw [hk] at hc
    exact (Option.some.inj hc).symm

end InstanceKey

/-- The address of an instance without its key. -/
theorem instanceAddress_eq (module : ModulePath) (resource : ResourceAddress) (key : InstanceKey) :
    instanceAddress module resource key =
      ".".intercalate (module.segments ++ resource.segments) ++ key.text := by
  unfold instanceAddress
  rw [resource.text_eq_intercalate, module.text_eq_intercalate]
  cases hroot : module.isRoot with
  | true =>
    have hsteps : module.segments = [] := by
      rw [ModulePath.isRoot, List.isEmpty_iff] at hroot
      rw [ModulePath.segments, hroot]
      rfl
    rw [hsteps, List.nil_append, if_pos rfl, String.empty_append]
  | false =>
    have hsteps : module.segments ≠ [] := by
      intro h
      have hlength := module.length_segments
      rw [h, List.length_nil] at hlength
      rw [ModulePath.isRoot, List.isEmpty_eq_false_iff] at hroot
      exact hroot (List.length_eq_zero_iff.1 (by omega))
    rw [String.intercalate_append_of_ne_nil hsteps resource.segments_ne_nil, if_neg (by simp)]

/-- Names that keep an address readable: segments, with a mode as it is read from its word. -/
structure ResourceAddress.IsPlain (a : ResourceAddress) : Prop where
  mode : IsSegment a.mode.word
  type : IsSegment a.type
  name : IsSegment a.name
  read : Mode.ofWord a.mode.word = a.mode

namespace ResourceAddress.IsPlain

variable {a b : ResourceAddress}

theorem isSegment_of_mem_segments (h : a.IsPlain) : ∀ s ∈ a.segments, IsSegment s := by
  intro s hs
  rcases mem_segments hs with rfl | rfl | rfl
  · exact h.mode
  · exact h.type
  · exact h.name

theorem text_injective (ha : a.IsPlain) (hb : b.IsPlain) (h : a.text = b.text) : a = b := by
  rw [text_eq_intercalate, text_eq_intercalate] at h
  exact segments_injective ha.read hb.read (intercalate_injective ha.isSegment_of_mem_segments
    hb.isSegment_of_mem_segments a.segments_ne_nil b.segments_ne_nil h)

end ResourceAddress.IsPlain

/-- The names that an address is made of. -/
theorem mem_segments {path : ModulePath} {resource : ResourceAddress} {s : String}
    (h : s ∈ path.segments ++ resource.segments) :
    s = "module" ∨ s ∈ path.steps ∨ s = resource.mode.word ∨ s = resource.type ∨
      s = resource.name := by
  rcases List.mem_append.1 h with h | h
  · obtain ⟨step, hstep, hs⟩ := List.mem_flatMap.1 h
    rcases List.mem_cons.1 hs with rfl | hs
    · exact .inl rfl
    · exact .inr (.inl (List.mem_singleton.1 hs ▸ hstep))
  · exact .inr (.inr (ResourceAddress.mem_segments h))

theorem forall_mem_intercalate {P : Char → Prop} (hdot : P '.') {names : List String}
    (h : ∀ n ∈ names, ∀ c ∈ n.toList, P c) : ∀ c ∈ (".".intercalate names).toList, P c := by
  intro c hc
  induction names with
  | nil => exact absurd hc (by simp)
  | cons n names ih =>
    obtain ⟨hn, hnames⟩ := List.forall_mem_cons.1 h
    cases names with
    | nil => exact hn c (by simpa using hc)
    | cons m names =>
      rw [String.intercalate_cons_of_ne_nil (List.cons_ne_nil _ _), String.toList_append,
        String.toList_append, List.append_assoc, List.mem_append, List.mem_append] at hc
      rcases hc with hc | hc | hc
      · exact hn c hc
      · rwa [List.mem_singleton.1 hc]
      · exact ih hnames hc

/-- What is in no name of an address is in it only with the key. -/
theorem mem_instanceAddress_iff {c : Char} (hdot : c ≠ '.') (hmodule : c ∉ "module".toList)
    {path : ModulePath} {resource : ResourceAddress}
    (hsteps : ∀ step ∈ path.steps, c ∉ step.toList)
    (hresource : c ∉ resource.mode.word.toList ∧ c ∉ resource.type.toList ∧
      c ∉ resource.name.toList) (key : InstanceKey) :
    c ∈ (instanceAddress path resource key).toList ↔ c ∈ key.text.toList := by
  have hnames : ∀ s ∈ path.segments ++ resource.segments, c ∉ s.toList := by
    intro s hs
    rcases mem_segments hs with rfl | hs | rfl | rfl | rfl
    · exact hmodule
    · exact hsteps s hs
    · exact hresource.1
    · exact hresource.2.1
    · exact hresource.2.2
  rw [instanceAddress_eq, String.toList_append, List.mem_append, or_iff_right]
  exact fun h => forall_mem_intercalate (P := (· ≠ c)) hdot.symm
    (fun s hs d hd heq => hnames s hs (heq ▸ hd)) c h rfl

/-- An address stays on its line if its names do. -/
theorem lineFeed_not_mem_instanceAddress {path : ModulePath} {resource : ResourceAddress}
    (hsteps : ∀ step ∈ path.steps, '\n' ∉ step.toList)
    (hresource : '\n' ∉ resource.mode.word.toList ∧ '\n' ∉ resource.type.toList ∧
      '\n' ∉ resource.name.toList) (key : InstanceKey) :
    '\n' ∉ (instanceAddress path resource key).toList := by
  rw [mem_instanceAddress_iff (by decide) (by decide) hsteps hresource]
  exact fun h => InstanceKey.ne_lineFeed_of_mem_text h rfl

/-- The key of an instance starts at the first bracket of its address. -/
theorem intercalate_append_key_injective {names names' : List String}
    (hn : ∀ n ∈ names, IsSegment n) (hn' : ∀ n ∈ names', IsSegment n) {k k' : InstanceKey}
    (h : ".".intercalate names ++ k.text = ".".intercalate names' ++ k'.text) :
    ".".intercalate names = ".".intercalate names' ∧ k = k' := by
  have hspan {names : List String} (hn : ∀ n ∈ names, IsSegment n) (k : InstanceKey) :
      let text := (".".intercalate names ++ k.text).toList
      text.takeWhile (fun c => !(c == '[')) = (".".intercalate names).toList ∧
        text.dropWhile (fun c => !(c == '[')) = k.text.toList := by
    rw [String.toList_append]
    refine Text.span_append ?_ ?_
    · intro c hc
      have hne := forall_mem_intercalate (P := (· ≠ '[')) (by decide) (fun n hmem d hd =>
        (hn n hmem d hd).2) c hc
      simpa using hne
    · intro c hc
      simp [k.head?_text c hc]
  obtain ⟨hfront, hkey⟩ := hspan hn k
  rw [h, (hspan hn' k').1] at hfront
  rw [h, (hspan hn' k').2] at hkey
  exact ⟨String.toList_injective hfront.symm,
    InstanceKey.text_injective (String.toList_injective hkey.symm)⟩

/-- The segments of a path are even in number, and those of a resource are two or three. -/
theorem segments_append_injective {p p' : ModulePath} {a a' : ResourceAddress} (ha : a.IsPlain)
    (ha' : a'.IsPlain) (h : p.segments ++ a.segments = p'.segments ++ a'.segments) :
    p = p' ∧ a = a' := by
  have hlength : a.segments.length = a'.segments.length := by
    have htotal := congrArg List.length h
    rw [List.length_append, List.length_append, p.length_segments, p'.length_segments] at htotal
    have ha := a.length_segments
    have ha' := a'.length_segments
    omega
  obtain ⟨hpath, hresource⟩ := List.append_inj' h hlength
  exact ⟨ModulePath.segments_injective hpath,
    ResourceAddress.segments_injective ha.read ha'.read hresource⟩

theorem instanceAddress_parts {p p' : ModulePath} {a a' : ResourceAddress} {k k' : InstanceKey}
    (hp : ∀ step ∈ p.steps, IsSegment step) (hp' : ∀ step ∈ p'.steps, IsSegment step)
    (ha : a.IsPlain) (ha' : a'.IsPlain) (h : instanceAddress p a k = instanceAddress p' a' k') :
    p = p' ∧ a = a' ∧ k = k' := by
  have hnames {p : ModulePath} {a : ResourceAddress} (hp : ∀ step ∈ p.steps, IsSegment step)
      (ha : a.IsPlain) : ∀ s ∈ p.segments ++ a.segments, IsSegment s :=
    List.forall_mem_append.2 ⟨ModulePath.isSegment_of_mem_segments hp, ha.isSegment_of_mem_segments⟩
  rw [instanceAddress_eq, instanceAddress_eq] at h
  obtain ⟨htext, hkey⟩ := intercalate_append_key_injective (hnames hp ha) (hnames hp' ha') h
  have hsegments : p.segments ++ a.segments = p'.segments ++ a'.segments := by
    refine intercalate_injective (hnames hp ha) (hnames hp' ha') ?_ ?_ htext
    · simp [a.segments_ne_nil]
    · simp [a'.segments_ne_nil]
  obtain ⟨hpath, hresource⟩ := segments_append_injective ha ha' hsegments
  exact ⟨hpath, hresource, hkey⟩

/-- The full address of an instance tells its module, its resource and its key, whatever the key
is. The texts of a path and of a resource tell these alone. -/
theorem instanceAddress_eq_iff {p p' : ModulePath} {a a' : ResourceAddress}
    (hp : ∀ step ∈ p.steps, IsSegment step) (hp' : ∀ step ∈ p'.steps, IsSegment step)
    (ha : a.IsPlain) (ha' : a'.IsPlain) (k k' : InstanceKey) :
    (instanceAddress p a k = instanceAddress p' a' k' ↔ p = p' ∧ a = a' ∧ k = k') ∧
      (p.text = p'.text ↔ p = p') ∧ (a.text = a'.text ↔ a = a') := by
  refine ⟨⟨instanceAddress_parts hp hp' ha ha', ?_⟩, ⟨ModulePath.text_injective hp hp', ?_⟩,
    ⟨ha.text_injective ha', ?_⟩⟩
  · rintro ⟨rfl, rfl, rfl⟩
    rfl
  · rintro rfl
    rfl
  · rintro rfl
    rfl

/-- A mode may be the word in front of every step of a path. Then one address can start like
another, with a dot in its key where the other has its next segment. -/
theorem instanceAddress_eq_iff_module :
    let p : ModulePath := ⟨["a"]⟩
    let p' : ModulePath := ⟨["a", "b"]⟩
    let a : ResourceAddress := ⟨.ofWord "module", "b", "c"⟩
    let a' : ResourceAddress := ⟨.ofWord "managed", "c", "d"⟩
    instanceAddress p a (.str ".d") = "module.a.module.b.c[\".d\"]" ∧
      instanceAddress p' a' (.int (-1)) = "module.a.module.b.c.d[-1]" ∧
      instanceAddress p a (.str ".d") ≠ instanceAddress p' a' (.int (-1)) := by
  intro p p' a a'
  have ha : a.IsPlain := ⟨by decide, by decide, by decide, by decide⟩
  have ha' : a'.IsPlain := ⟨by decide, by decide, by decide, by decide⟩
  refine ⟨by decide, by decide, fun h => ?_⟩
  have hparts := (instanceAddress_eq_iff (by decide) (by decide) ha ha' _ _).1.1 h
  exact absurd hparts.1 (by decide)

end StateText
