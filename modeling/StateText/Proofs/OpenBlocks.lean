import StateText.Proofs.Headers
import StateText.Proofs.Nesting
import StateText.Proofs.Shifted

/-!
# Blocks that stay open

A failed block is left open in one of the two styles. What closes it for a check is a brace alone on
its line. Only blocks have one, and outputs that are written over several lines between braces:
`format_balance` concludes which texts are found balanced.
-/

namespace StateText

open Check Text Render

/-! ### Lines of outputs -/

namespace Check

/-- Indented lines open nothing and close nothing. -/
theorem blocks_indented {width : Nat} (hwidth : 0 < width) (cs : List Char) :
    Blocks [] (indented width cs ++ ['\n']) := by
  obtain ⟨inner, rfl⟩ := Nat.exists_eq_succ_of_ne_zero hwidth.ne'
  have hlines : ∀ line ∈ lines (indented (inner + 1) cs ++ ['\n']),
      isHeader line = false ∧ line ≠ closingLine := by
    rw [lines_snoc_lineFeed, pieces_indented, List.map_map, List.forall_mem_map]
    intro piece _
    have hblank : spaces (inner + 1) ++ piece = ' ' :: (spaces inner ++ piece) := by
      simp [spaces, List.replicate_succ]
    rw [Function.comp_apply, hblank]
    exact ⟨isHeader_dropReturn rfl,
      dropReturn_ne_closingLine List.mem_cons_self (by decide) (by decide)⟩
  exact .of_sections (.of_forall fun line hline => (hlines line hline).1)
    fun hclosing => (hlines _ hclosing).2 rfl

theorem mem_lines_flatMap {α : Type} {f : α → List Char} {as : List α}
    (h : ∀ a ∈ as, Sections [] (f a)) {line : List Char} :
    line ∈ lines (as.flatMap f) ↔ ∃ a ∈ as, line ∈ lines (f a) := by
  induction as with
  | nil => simp
  | cons a as ih =>
    obtain ⟨ha, has⟩ := List.forall_mem_cons.1 h
    rw [List.flatMap_cons, ha.lines_append, List.mem_append, ih has, List.exists_mem_cons_iff]

theorem Blocks.closingLine_not_mem {cs : List Char} (h : Blocks [] cs) :
    closingLine ∉ lines cs := by
  intro hclosing
  have hquiet : ∀ line ∈ lines cs, isHeader line = false := by
    simpa using List.filter_eq_nil_iff.1 h.headers_eq
  have hrun := h.run (some []) []
  rw [imbalance?_append hquiet, if_pos hclosing] at hrun
  cases hrun

end Check

theorem Render.blocks_itemLines {inner : Nat} (hinner : 0 < inner) (items : List (List Char)) :
    Blocks [] (itemLines inner (items.map (shift inner))) := by
  induction items with
  | nil => exact .nil
  | cons item items ih =>
    let comma : List Char := if items = [] then [] else [',']
    have hcomma : shift inner comma = comma :=
      shift_of_not_mem inner (lineFeed_not_mem_comma items)
    have hlines : itemLines inner ((item :: items).map (shift inner)) =
        indented inner (item ++ comma) ++ ['\n'] ++ itemLines inner (items.map (shift inner)) := by
      rw [List.map_cons, itemLines_cons, indented, shift_append, hcomma]
      simp [comma]
    rw [hlines]
    exact (blocks_indented hinner _).append ih

namespace Value

/-- The value is written over several lines between braces. -/
def IsBraced (v : Value) : Prop := v.brackets? = some ('\x7b', '\x7d') ∧ v.elements ≠ []

/-- What stands behind the opening bracket of a collection: its lines, which open nothing and close
nothing, and the closing bracket. -/
theorem exists_chars_eq {v : Value} (h : v.elements ≠ []) : ∃ opening closing items,
    v.brackets? = some (opening, closing) ∧ Blocks [] (itemLines level items) ∧
      v.chars 0 = opening :: '\n' :: (itemLines level items ++ [closing]) := by
  have hrows : v.rows ≠ [] := mt rows_eq_nil_iff.1 h
  obtain ⟨r, rows, hcons⟩ := List.exists_cons_of_ne_nil hrows
  have hr : r ∈ v.rows := by
    rw [hcons]
    exact List.mem_cons_self
  obtain ⟨opening, closing, hbrackets⟩ := exists_brackets_of_mem_rows hr
  have hitems : v.rows.map (fun r => r.1 ++ r.2.chars (0 + level)) =
      (v.rows.map fun r => r.1 ++ r.2.chars 0).map (shift level) := by
    rw [List.map_map]
    refine List.map_congr_left fun r hr => ?_
    rw [Function.comp_apply, shift_append, shift_of_not_mem level (lineFeed_not_mem_of_mem_rows hr),
      chars_add]
  refine ⟨opening, closing, v.rows.map fun r => r.1 ++ r.2.chars (0 + level), hbrackets, ?_, ?_⟩
  · rw [hitems]
    exact blocks_itemLines (by decide) _
  · rw [chars_eq_bracketed hbrackets, bracketed, if_neg (mt List.map_eq_nil_iff.1 hrows)]
    simp

end Value

namespace Module

theorem closingLine_not_mem_assignment {name : String} (hname : '\n' ∉ name.toList)
    {cs : List Char} (hcs : '\n' ∉ cs) :
    closingLine ∉ lines (name.toList ++ " = ".toList ++ cs ++ ['\n']) := by
  have hmem : ' ' ∈ name.toList ++ " = ".toList ++ cs := by simp
  exact closingLine_not_mem_lines (by simp [hname, hcs]) hmem (by decide) (by decide)

theorem outputLine_eq_assignment (o : String × Output) :
    outputLine o = o.1.toList ++ " = ".toList ++ o.2.value.chars 0 ++ ['\n'] := by
  simp [outputLine]

/-- The lines of an output with elements: its name with the opening bracket, what it holds, and the
closing bracket. -/
theorem exists_lines_outputLine {o : String × Output} (h : o.2.value.elements ≠ []) :
    ∃ opening closing inner, o.2.value.brackets? = some (opening, closing) ∧ Blocks [] inner ∧
      lines (outputLine o) = lines (o.1.toList ++ " = ".toList ++ [opening] ++ ['\n']) ++
        (lines inner ++ lines [closing, '\n']) := by
  obtain ⟨opening, closing, items, hbrackets, hitems, hchars⟩ := Value.exists_chars_eq h
  have houtput : outputLine o = (o.1.toList ++ " = ".toList ++ [opening]) ++
      '\n' :: (itemLines level items ++ [closing, '\n']) := by
    rw [outputLine_eq_assignment, hchars]
    simp
  refine ⟨opening, closing, itemLines level items, hbrackets, hitems, ?_⟩
  rw [houtput, lines_append_lineFeed, lines_snoc_lineFeed, hitems.lines_append]

theorem closingLine_mem_outputLine_iff {o : String × Output} (hname : '\n' ∉ o.1.toList) :
    closingLine ∈ lines (outputLine o) ↔ o.2.value.IsBraced := by
  by_cases helements : o.2.value.elements = []
  · rw [outputLine_eq_assignment]
    have hline := (o.2.value.lineFeed_not_mem_chars_iff 0).2 helements
    exact iff_of_false (closingLine_not_mem_assignment hname hline) fun h => h.2 helements
  · obtain ⟨opening, closing, inner, hbrackets, hinner, hlines⟩ :=
      exists_lines_outputLine helements
    have hopening : '\n' ∉ [opening] := by
      rcases Value.brackets?_cases hbrackets with ⟨rfl, rfl⟩ | ⟨rfl, rfl⟩ <;> decide
    rw [hlines, List.mem_append, List.mem_append,
      or_iff_right (closingLine_not_mem_assignment hname hopening),
      or_iff_right hinner.closingLine_not_mem]
    rcases Value.brackets?_cases hbrackets with ⟨rfl, rfl⟩ | ⟨rfl, rfl⟩
    · refine iff_of_false (by decide) fun h => ?_
      rw [h.1] at hbrackets
      cases hbrackets
    · exact iff_of_true (by decide) ⟨hbrackets, helements⟩

end Module

namespace State

/-- An output is written over several lines between braces, so the last of them is a brace alone. -/
def ShowsBrace (s : State) : Prop := ∃ root ∈ s.root?, ∃ o ∈ root.outputs, o.2.value.IsBraced

variable {w : Walk} {schemas : Schemas} {s : State}

theorem NamesOnLine.closingLine_mem_outputChars_iff (h : s.NamesOnLine schemas) :
    closingLine ∈ lines s.outputChars ↔ s.ShowsBrace := by
  unfold State.outputChars ShowsBrace
  cases hroot : s.root? with
  | none => simp
  | some root =>
    have hmem : ("", root) ∈ s.modules := Entries.mem_of_get? hroot
    have htitle : closingLine ∉ lines "\nOutputs:\n\n".toList := by decide
    dsimp only
    unfold Module.outputChars
    split_ifs with houtputs
    · simp [houtputs]
    · have hsections : ∀ o ∈ Entries.sorted root.outputs, Sections [] (Module.outputLine o) :=
        fun o ho => h.sections_outputLine hroot (Entries.mem_sortBy.1 ho)
      rw [sections_title.lines_append, List.mem_append, or_iff_right htitle,
        mem_lines_flatMap hsections]
      simp only [Entries.sorted, Entries.mem_sortBy, Option.mem_some_iff, exists_eq_left']
      refine exists_congr fun o => and_congr_right fun ho => ?_
      exact Module.closingLine_mem_outputLine_iff (h.outputs _ hmem o ho).1

end State

/-! ### What is found balanced -/

namespace Check

/-- Blocks end with none of them open or, where something may still close it, with the last one:
each block that is not closed has none behind it. -/
theorem exists_openBehind_iff {blocks : List (List Char × Bool)} {P : Prop} :
    (∃ open?, openBehind none blocks = .ok open? ∧ (open? = none ∨ P)) ↔
      ∀ b behind, b :: behind <:+ blocks → b.2 = false → behind = [] ∧ P := by
  induction blocks with
  | nil => simp [openBehind]
  | cons first blocks ih =>
    obtain ⟨header, closed⟩ := first
    cases closed with
    | true =>
      refine Iff.trans ih ⟨fun hall b behind hsuffix hb => ?_, fun hall b behind hsuffix => ?_⟩
      · rcases List.suffix_cons_iff.1 hsuffix with heq | htail
        · cases heq
          cases hb
        · exact hall b behind htail hb
      · exact hall b behind (hsuffix.trans (List.suffix_cons _ _))
    | false =>
      cases blocks with
      | nil =>
        constructor
        · rintro ⟨open?, hopen, hclosed⟩ b behind hsuffix _
          cases hopen
          rcases List.suffix_cons_iff.1 hsuffix with heq | htail
          · exact ⟨(List.cons.inj heq).2, hclosed.resolve_left (Option.some_ne_none _)⟩
          · exact absurd (List.suffix_nil.1 htail) (List.cons_ne_nil _ _)
        · exact fun hall => ⟨some header, rfl, .inr (hall _ [] List.suffix_rfl rfl).2⟩
      | cons next blocks =>
        refine iff_of_false ?_ fun hall => ?_
        · rintro ⟨open?, hopen, _⟩
          cases hopen
        · exact List.cons_ne_nil _ _ (hall _ _ List.suffix_rfl rfl).1

/-- What a check finds in blocks with lines behind them that are no headers. -/
theorem balance_eq_ok_iff {blocks : List (List Char × Bool)} {body front behind : List Char}
    (hfront : Blocks blocks front) (hbehind : Sections [] behind)
    (hlines : lines body = lines front ++ lines behind) :
    balance body = .ok () ↔ ∀ b others, b :: others <:+ blocks → b.2 = false →
      others = [] ∧ closingLine ∈ lines behind := by
  have hend (open? : Option (List Char)) : imbalance? open? (lines behind) = none ↔
      open? = none ∨ closingLine ∈ lines behind := by
    have hrest := imbalance?_append hbehind.isHeader_of_mem_lines open? []
    rw [List.append_nil] at hrest
    rw [hrest, imbalance?, Option.map_eq_none_iff]
    split_ifs with hclosing <;> simp [hclosing]
  have hrun : imbalance? none (lines body) = resume (lines behind) (openBehind none blocks) := by
    rw [hlines, hfront.run]
  rw [← exists_openBehind_iff, balance, hrun]
  cases openBehind none blocks with
  | error e => simp [resume]
  | ok open? =>
    rw [resume]
    cases hfound : imbalance? open? (lines behind) with
    | none => simpa using (hend open?).1 hfound
    | some e =>
      have hopen := mt (hend open?).2 (by simp [hfound])
      simpa using hopen

end Check

namespace State

variable {w : Walk} {s : State}

/-- The text of a state as a check meets it: the blocks of its instances, then its outputs. -/
theorem NamesOnLine.exists_blocks (h : s.NamesOnLine w.schemas) (hne : s.isEmpty = false)
    (hmessage : w.style = .placeholder → ∀ l ∈ s.located, ∀ e ∈ l.error? w,
      '\n' ∉ e.display.toList) :
    ∃ body front, (s.text w).dropLast = Markup.Code.reset.token ++ body ∧
      Blocks (s.located.map fun l => (l.header, l.isClosed w)) front ∧
        lines body = lines front ++ lines s.outputChars := by
  obtain ⟨body, hbody, hends⟩ := text_eq_reset w hne
  have hblocks : Blocks (s.moduleList.flatMap fun m =>
      m.located.map fun l => (l.header, l.isClosed w)) (s.moduleList.flatMap (Module.text w)) := by
    refine Blocks.flatMap _ fun m hm => ?_
    obtain ⟨e, he, rfl⟩ := List.mem_map.1 hm
    refine h.blocks_module he fun hstyle l hl => hmessage hstyle l ?_
    exact List.mem_flatMap.2 ⟨_, hm, hl⟩
  rw [← List.map_flatMap, ← located] at hblocks
  refine ⟨body, _, ?_, hblocks, ?_⟩
  · rw [hbody, ← List.append_assoc, List.dropLast_concat]
  · rw [text, List.append_assoc] at hbody
    rw [← lines_snoc_of_endsVisibly hends, ← List.append_cancel_left hbody, hblocks.lines_append]

/-- The text of a state that leaves failed blocks open is found balanced exactly if each of them is
the last block and an output behind it ends in a brace alone on its line. Without such an output, it
is found balanced exactly if no instance failed. -/
theorem format_balance (hstyle : w.style = .truncate) (hne : s.isEmpty = false)
    (h : s.NamesOnLine w.schemas) {t : String} (ht : (s.format w id).1 = .ok t) :
    ∃ body, t.toList = Markup.Code.reset.token ++ body ∧
      (Check.balance body = .ok () ↔ ∀ l behind, l :: behind <:+ s.located →
        l.error? w ≠ none → behind = [] ∧ s.ShowsBrace) ∧
      (¬ s.ShowsBrace → (Check.balance body = .ok () ↔ ∀ l ∈ s.located, l.error? w = none)) := by
  rw [format_id_of_complete hne (complete_of_format_eq_ok id ht)] at ht
  cases ht
  obtain ⟨body, front, hbody, hblocks, hlines⟩ := h.exists_blocks hne fun hplaceholder => by
    rw [hstyle] at hplaceholder
    cases hplaceholder
  have hopen (l : Located) : l.isClosed w = false ↔ l.error? w ≠ none := by
    rw [Located.isClosed, hstyle]
    cases l.error? w <;> simp
  have hbalance : Check.balance body = .ok () ↔ ∀ l behind, l :: behind <:+ s.located →
      l.error? w ≠ none → behind = [] ∧ s.ShowsBrace := by
    rw [balance_eq_ok_iff hblocks h.sections_outputChars hlines,
      h.closingLine_mem_outputChars_iff]
    constructor
    · intro hall l behind hsuffix herror
      obtain ⟨hbehind, hbrace⟩ := hall _ _ (hsuffix.map _) ((hopen l).2 herror)
      exact ⟨List.map_eq_nil_iff.1 hbehind, hbrace⟩
    · intro hall b others hsuffix hb
      obtain ⟨ls, hls, heq⟩ := List.suffix_map_iff.1 hsuffix
      obtain ⟨l, behind, rfl, rfl, rfl⟩ := List.map_eq_cons_iff.1 heq.symm
      obtain ⟨rfl, hbrace⟩ := hall l behind hls ((hopen l).1 hb)
      exact ⟨rfl, hbrace⟩
  refine ⟨body, by rw [String.toList_ofList, hbody], hbalance, fun hbrace => ?_⟩
  rw [hbalance]
  constructor
  · intro hall l hl
    obtain ⟨front, behind, heq⟩ := List.append_of_mem hl
    by_contra herror
    exact hbrace (hall l behind ⟨front, heq.symm⟩ herror).2
  · intro hall l behind hsuffix herror
    exact absurd (hall l (hsuffix.subset List.mem_cons_self)) herror

def pair (instances : Entries InstanceKey Instance) (outputs : Entries String Output) : State :=
  ⟨[("", ⟨.root, [("t.a", ⟨⟨.managed, "t", "a"⟩, "p", instances⟩)], outputs⟩)]⟩

theorem onLine_pair (instances : Entries InstanceKey Instance) (v : Value) :
    (pair instances [("o", ⟨v, false⟩)]).OnLine single where
  steps m hm step hs := by
    cases List.mem_singleton.1 hm
    cases hs
  resources m hm r hr := by
    cases List.mem_singleton.1 hm
    cases List.mem_singleton.1 hr
    have hresource : ResourceAddress.OnLine ⟨.managed, "t", "a"⟩ :=
      ⟨by decide, by decide, by decide, by decide⟩
    exact hresource
  attributes := onLine_disguised.attributes
  outputs m hm o ho := by
    cases List.mem_singleton.1 hm
    cases List.mem_singleton.1 ho
    have hname : '\n' ∉ "o".toList ∧ "o" ≠ "#" ∧ isHeader "o".toList = false := by decide
    exact hname

/-- The last of two instances cannot be decoded, and what is behind it closes no block. -/
theorem format_balance_listed :
    let w : Walk := .json single .truncate
    let s := pair [(.int 0, ⟨.ready, "\x7b\x7d"⟩), (.int 1, ⟨.ready, ""⟩)]
      [("o", ⟨.list [.map []], false⟩)]
    ∃ t body, (s.format w id).1 = .ok t ∧ t.toList = Markup.Code.reset.token ++ body ∧
      ¬ Check.balance body = .ok () := by
  intro w s
  have hcomplete : Located.stopped? single s.located = none := by decide +kernel
  have hok : (s.format w id).1 = _ := congrArg Prod.fst (format_id_of_complete rfl hcomplete)
  obtain ⟨body, ht, _, hbalance⟩ := format_balance rfl rfl (onLine_pair _ _).names hok
  have hbrace : ¬ s.ShowsBrace := by
    rintro ⟨root, hroot, o, ho, hbraced⟩
    cases hroot
    cases List.mem_singleton.1 ho
    cases hbraced.1
  have hlast : (⟨.root, "p", ⟨.managed, "t", "a"⟩, .int 1, ⟨.ready, ""⟩⟩ : Located) ∈ s.located :=
    mem_located.2 ⟨_, List.mem_singleton_self _, _, List.mem_singleton_self _,
      List.mem_map_of_mem (List.mem_cons_of_mem _ List.mem_cons_self)⟩
  exact ⟨_, body, hok, ht, fun hfound =>
    absurd ((hbalance hbrace).1 hfound _ hlast) (by decide +kernel)⟩

/-- An output closes the block of an instance that cannot be decoded. -/
theorem format_balance_braced :
    let w : Walk := .json single .truncate
    let s := pair [(.none, ⟨.ready, ""⟩)] [("o", ⟨.map [("k", .bool true)], false⟩)]
    let body := "# t.a: \nresource \"t\" \"a\" \x7b\n[reset]\n\nOutputs:\n\n" ++
      "o = \x7b\n    k = true\n\x7d"
    s.OnLine single ∧ (s.format w id).1 = .ok ("[reset]" ++ body) ∧
      (s.located.map fun l => (l.error? w).isNone) = [false] ∧
        Check.balance body.toList = .ok () := by
  intro w s body
  exact ⟨onLine_pair _ _, by decide +kernel, by decide +kernel, by decide +kernel⟩

end State

end StateText
