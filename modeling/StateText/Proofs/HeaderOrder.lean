import StateText.Proofs.OpenBlocks

/-!
# The order of headers

A check compares the headers of a text with the addresses it expects, each header as far as its
first colon. That is the whole address unless the key of the instance has a colon in it:
`format_headerOrder` concludes which lists of addresses are the ones found.
-/

namespace StateText

open Check

namespace Check

/-- The rest behind the first colon of a text is of no account. -/
theorem beforeColon?_append (cs rest : List Char) :
    beforeColon? (cs ++ ':' :: rest) = some (cs.takeWhile (· != ':')) := by
  have hcolon : (cs ++ ':' :: rest).contains ':' = true := by simp
  rw [beforeColon?, if_pos hcolon, List.takeWhile_append]
  split_ifs with hlength
  · rw [(List.takeWhile_prefix _).eq_of_length hlength]
    simp
  · rfl

theorem headerOrder_eq_ok_iff {text : List Char} {found : List String}
    (h : addresses text = found.map String.toList) (expected : List String) :
    headerOrder text expected = .ok () ↔ expected = found := by
  have hinjective := List.map_injective_iff.2 fun _ _ => String.toList_injective
  have hfound : addresses text = expected.map String.toList ↔ expected = found := by
    rw [h, eq_comm]
    exact hinjective.eq_iff
  rw [headerOrder, ← hfound]
  split_ifs with heq <;> simp [heq]

end Check

namespace Located

/-- What a check compares of an instance: its address as far as the first colon. -/
def comparedAddress (l : Located) : String :=
  String.ofList (l.address.toList.takeWhile (· != ':'))

theorem address?_header (l : Located) : address? l.header = some l.comparedAddress.toList := by
  have hheader : l.header.drop headerMark.length = headerLine l.address l.stored.isTainted := rfl
  rw [address?, hheader, headerLine, beforeColon?_append, comparedAddress, String.toList_ofList]

theorem comparedAddress_eq_iff {l : Located} :
    l.comparedAddress = l.address ↔ ':' ∉ l.address.toList := by
  rw [comparedAddress, ← String.toList_inj, String.toList_ofList, List.takeWhile_eq_self_iff]
  constructor
  · exact fun hall hcolon => absurd (hall _ hcolon) (by decide)
  · exact fun hcolon c hc => by
      rw [bne_iff_ne]
      rintro rfl
      exact hcolon hc

end Located

structure State.ColonFree (s : State) : Prop where
  steps : ∀ m ∈ s.modules, ∀ step ∈ m.2.path.steps, ':' ∉ step.toList
  resources : ∀ m ∈ s.modules, ∀ r ∈ m.2.resources, ':' ∉ r.2.address.mode.word.toList ∧
    ':' ∉ r.2.address.type.toList ∧ ':' ∉ r.2.address.name.toList

namespace State

variable {schemas : Schemas} {style : FailureStyle} {s : State}

theorem ColonFree.comparedAddress_eq_iff (h : s.ColonFree) {l : Located} (hl : l ∈ s.located) :
    l.comparedAddress = l.address ↔ ∀ key, l.key = .str key → ':' ∉ key.toList := by
  obtain ⟨m, hm, r, hr, hlocated⟩ := mem_located.1 hl
  obtain ⟨i, _, rfl⟩ := List.mem_map.1 hlocated
  rw [Located.comparedAddress_eq_iff, Located.address,
    mem_instanceAddress_iff (by decide) (by decide) (h.steps m hm) (h.resources m hm r hr),
    InstanceKey.colon_mem_text_iff]
  simp

/-- The headers of a text without its first reset are those of the instances. -/
theorem OnLine.exists_headers (h : s.OnLine schemas) (hne : s.isEmpty = false) {t : String}
    (ht : (s.format (.json schemas style) id).1 = .ok t) :
    ∃ body, t.toList = Markup.Code.reset.token ++ body ∧
      Check.headers body = s.located.map Located.header := by
  rw [format_id_of_complete hne (complete_of_format_eq_ok id ht)] at ht
  cases ht
  obtain ⟨body, front, hbody, hblocks, hlines⟩ := h.names.exists_blocks
    (w := .json schemas style) hne fun _ _ _ _ he => h.lineFeed_not_mem_display he
  have houtputs : (Text.lines s.outputChars).filter isHeader = [] :=
    h.sections_outputChars.headers_eq
  have hfront : (Text.lines front).filter isHeader = s.located.map Located.header := by
    rw [← Check.headers, hblocks.headers_eq, List.map_map]
    rfl
  refine ⟨body, by rw [String.toList_ofList, hbody], ?_⟩
  rw [Check.headers, hlines, List.filter_append, houtputs, hfront, List.append_nil]

/-- The order found in the text of a state, failed blocks left open or not, is that of its
instances, each with its address as far as the first colon. If no name has a colon in it, these are
the full addresses exactly if no key has one. -/
theorem format_headerOrder (hne : s.isEmpty = false) (h : s.OnLine schemas) {t : String}
    (ht : (s.format (.json schemas style) id).1 = .ok t) :
    ∃ body, t.toList = Markup.Code.reset.token ++ body ∧
      (∀ expected, Check.headerOrder body expected = .ok () ↔
        expected = s.located.map Located.comparedAddress) ∧
      (s.ColonFree → ((∀ expected, Check.headerOrder body expected = .ok () ↔
        expected = s.located.map Located.address) ↔
          ∀ l ∈ s.located, ∀ key, l.key = .str key → ':' ∉ key.toList)) := by
  obtain ⟨body, hbody, hheaders⟩ := h.exists_headers hne ht
  have haddresses : Check.addresses body =
      (s.located.map Located.comparedAddress).map String.toList := by
    rw [Check.addresses, hheaders, List.filterMap_map, List.map_map, ← List.filterMap_eq_map]
    exact List.filterMap_congr fun l _ => l.address?_header
  have horder := headerOrder_eq_ok_iff haddresses
  refine ⟨body, hbody, horder, fun hcolons => ?_⟩
  calc
    (∀ expected, Check.headerOrder body expected = .ok () ↔
        expected = s.located.map Located.address) ↔
        s.located.map Located.comparedAddress = s.located.map Located.address := by
      simp only [horder]
      exact ⟨fun hall => (hall _).1 rfl, fun heq expected => by rw [heq]⟩
    _ ↔ ∀ l ∈ s.located, l.comparedAddress = l.address := List.map_inj_left
    _ ↔ _ := forall₂_congr fun l hl => hcolons.comparedAddress_eq_iff hl

theorem colonFree_pair (instances : Entries InstanceKey Instance)
    (outputs : Entries String Output) : (pair instances outputs).ColonFree where
  steps m hm step hs := by
    cases List.mem_singleton.1 hm
    cases hs
  resources m hm r hr := by
    cases List.mem_singleton.1 hm
    cases List.mem_singleton.1 hr
    have hresource : ':' ∉ Mode.managed.word.toList ∧ ':' ∉ "t".toList ∧ ':' ∉ "a".toList := by
      decide
    exact hresource

/-- Keys are compared in full where none has a colon in it, also that of a block left open. -/
theorem format_headerOrder_keys :
    let s := pair [(.int 0, ⟨.ready, "\x7b\x7d"⟩), (.str "k", ⟨.tainted, ""⟩)]
      [("o", ⟨.string "# t.a: ", false⟩)]
    ∃ t body, (s.format (.json single .truncate) id).1 = .ok t ∧
      t.toList = Markup.Code.reset.token ++ body ∧
      ∀ expected, Check.headerOrder body expected = .ok () ↔
        expected = ["t.a[0]", "t.a[\"k\"]"] := by
  intro s
  have hcomplete : Located.stopped? single s.located = none := by decide +kernel
  have hok : (s.format (.json single .truncate) id).1 = _ :=
    congrArg Prod.fst (format_id_of_complete rfl hcomplete)
  obtain ⟨body, ht, _, horder⟩ := format_headerOrder rfl (onLine_pair _ _) hok
  have hlocated : s.located.map Located.address = ["t.a[0]", "t.a[\"k\"]"] := by decide +kernel
  have hkeys : ∀ l ∈ s.located, ∀ key, l.key = .str key → ':' ∉ key.toList := by
    have hkey : ∀ l ∈ s.located, ':' ∉ l.key.text.toList := by decide +kernel
    exact fun l hl key hstr hcolon =>
      hkey l hl (InstanceKey.colon_mem_text_iff.2 ⟨key, hstr, hcolon⟩)
  have hfull := (horder (colonFree_pair _ _)).2 hkeys
  rw [hlocated] at hfull
  exact ⟨_, body, hok, ht, hfull⟩

/-- The header of an instance is cut within its key. -/
theorem format_headerOrder_cut :
    let s := pair [(.str "a:b", ⟨.ready, "\x7b\x7d"⟩)] [("o", ⟨.null, false⟩)]
    let body := "# t.a[\"a:b\"]: \nresource \"t\" \"a\" \x7b\n\x7d\n\n[reset]\n\nOutputs:\n\n" ++
      "o = null"
    s.OnLine single ∧ s.ColonFree ∧
      (s.format (.json single .truncate) id).1 = .ok ("[reset]" ++ body) ∧
      s.located.map Located.address = ["t.a[\"a:b\"]"] ∧
      Check.headerOrder body.toList ["t.a[\"a:b\"]"] ≠ .ok () ∧
      Check.headerOrder body.toList ["t.a[\"a"] = .ok () := by
  intro s body
  have haddresses : Check.addresses body.toList = ["t.a[\"a"].map String.toList := by
    decide +kernel
  have horder := headerOrder_eq_ok_iff haddresses
  exact ⟨onLine_pair _ _, colonFree_pair _ _, by decide +kernel, by decide +kernel,
    (horder _).not.2 (by decide), (horder _).2 rfl⟩

end State

end StateText
