import StateText.Proofs.Messages
import StateText.Proofs.Placeholder

/-!
# Headers of a state

With comments in place of what could not be decoded, the text of a state can be read block by block:
its headers are those of the instances, in their order, and each block is closed before the next
one. `format_headers` says so of every state whose names stay on one line, whatever its keys and
values are.
-/

namespace StateText

open Check

/-- Names that stay on one line, and a mode that is no mark of a header. -/
structure ResourceAddress.OnLine (a : ResourceAddress) : Prop where
  word : '\n' ∉ a.mode.word.toList
  type : '\n' ∉ a.type.toList
  name : '\n' ∉ a.name.toList
  unmarked : isHeader a.mode.word.toList = false

theorem Check.isHeader_append_cons {cs : List Char} (h : isHeader cs = false) {c : Char}
    (hc : c ≠ '#') (hmark : cs = ['#'] → c ≠ ' ') (ds : List Char) :
    isHeader (cs ++ c :: ds) = false := by
  cases cs with
  | nil => simp [isHeader, headerMark, List.isPrefixOf, hc.symm]
  | cons d cs =>
    cases cs with
    | nil =>
      by_cases hd : d = '#'
      · have hblank : ' ' ≠ c := (hmark (by rw [hd])).symm
        simp [isHeader, headerMark, List.isPrefixOf, hblank]
      · simp [isHeader, headerMark, List.isPrefixOf, Ne.symm hd]
    | cons e cs => simpa [isHeader, headerMark, List.isPrefixOf] using h

/-- A line with another character in it is not the closing one. -/
theorem Check.dropReturn_ne_closingLine {line : List Char} {c : Char} (hc : c ∈ line)
    (hbrace : c ≠ '\x7d') (hreturn : c ≠ '\r') : Text.dropReturn line ≠ closingLine := by
  unfold Text.dropReturn
  split_ifs with hlast
  · intro hclosing
    obtain ⟨front, rfl⟩ := List.getLast?_eq_some_iff.1 hlast
    rw [List.dropLast_concat] at hclosing
    rw [hclosing] at hc
    simp [closingLine, hbrace, hreturn] at hc
  · rintro rfl
    exact hbrace (List.mem_singleton.1 hc)

/-- A single line with another character in it closes nothing. -/
theorem Check.closingLine_not_mem_lines {line : List Char} (hline : '\n' ∉ line) {c : Char}
    (hc : c ∈ line) (hbrace : c ≠ '\x7d') (hreturn : c ≠ '\r') :
    closingLine ∉ Text.lines (line ++ ['\n']) := by
  rw [Text.lines_snoc_lineFeed, Text.pieces_of_not_mem hline, List.map_singleton,
    List.mem_singleton]
  exact (dropReturn_ne_closingLine hc hbrace hreturn).symm

theorem Check.taintedAddress?_append (address : List Char) :
    taintedAddress? (headerMark ++ address ++ taintMark) = some address := by
  have hmark : taintMark.isSuffixOf (headerMark ++ address ++ taintMark) = true :=
    List.isSuffixOf_iff_suffix.2 (List.suffix_append _ _)
  have hheader : headerMark.isPrefixOf (headerMark ++ address) = true :=
    List.isPrefixOf_iff_prefix.2 (List.prefix_append _ _)
  unfold taintedAddress?
  rw [if_pos hmark, List.length_append, Nat.add_sub_cancel, List.take_left, if_pos hheader,
    List.drop_left]

namespace Block

variable {b : Block}

theorem exists_opening_line (h : b.resource.OnLine) : ∃ line, b.opening = line ++ ['\n'] ∧
    '\n' ∉ line ∧ isHeader line = false ∧ ('"' ∈ line ∨ '.' ∈ line) := by
  have hlabelled (word : String) (hword : '\n' ∉ word.toList)
      (hmark : ∀ t, isHeader (word.toList ++ t) = false) :
      ∃ line, (word ++ " " ++ Text.quoted b.resource.type ++ " " ++
        Text.quoted b.resource.name).toList ++ [' ', '\x7b', '\n'] = line ++ ['\n'] ∧
          '\n' ∉ line ∧ isHeader line = false ∧ ('"' ∈ line ∨ '.' ∈ line) := by
    refine ⟨word.toList ++ (" " ++ Text.quoted b.resource.type ++ " " ++
      Text.quoted b.resource.name ++ " \x7b").toList, by simp, by simp [hword], hmark _, .inl ?_⟩
    simp [Text.quoted]
  unfold opening
  cases hm : b.resource.mode with
  | managed => exact hlabelled "resource" (by decide) fun _ => rfl
  | data => exact hlabelled "data" (by decide) fun _ => rfl
  | unknown word =>
    have hword : '\n' ∉ word.toList := by simpa [hm, Mode.word] using h.word
    have hmark : isHeader word.toList = false := by simpa [hm, Mode.word] using h.unmarked
    have htext : b.resource.text.toList =
        word.toList ++ '.' :: (b.resource.type ++ "." ++ b.resource.name).toList := by
      simp [ResourceAddress.text, hm]
    refine ⟨b.resource.text.toList, rfl, ?_, ?_, .inr (by simp [htext])⟩
    · simp [htext, hword, h.type, h.name]
    · rw [htext]
      exact isHeader_append_cons hmark (by decide) (fun _ => by decide) _

theorem sections_opening (h : b.resource.OnLine) : Sections [] b.opening := by
  obtain ⟨line, hopening, hline, hmark, _⟩ := exists_opening_line h
  rw [hopening]
  exact .of_line line hline hmark

theorem closingLine_not_mem_opening (h : b.resource.OnLine) :
    closingLine ∉ Text.lines b.opening := by
  obtain ⟨line, hopening, hline, _, hquote | hdot⟩ := exists_opening_line h
  · rw [hopening]
    exact closingLine_not_mem_lines hline hquote (by decide) (by decide)
  · rw [hopening]
    exact closingLine_not_mem_lines hline hdot (by decide) (by decide)

theorem sections_attributeLines {schema : ResourceSchema}
    (h : ∀ a ∈ schema.attributes, '\n' ∉ a.name.toList) (v : Value) :
    Sections [] (attributeLines schema v) := by
  refine Sections.flatMap_quiet fun a ha => ?_
  unfold attributeLine
  split_ifs
  · exact .nil
  · have hline := (Value.unmarked_chars (v.field a.name) Render.level).prepend
      (Text.spaces Render.level ++ a.name.toList ++ " = ".toList) (by simp [h a ha])
    simpa using Sections.of_unmarked hline rfl

theorem sections_comment (message : String) (h : '\n' ∉ message.toList) :
    Sections [] (Text.spaces Render.level ++ "# decode error: ".toList ++ message.toList ++
      ['\n']) :=
  .of_line _ (by simp [h]) rfl

end Block

namespace Located

def header (l : Located) : List Char :=
  '#' :: ' ' :: headerLine l.address l.stored.isTainted

theorem header_block (w : Walk) (l : Located) : (l.block w).header = l.header ++ ['\n'] := by
  have haddress : (l.block w).address = l.address := rfl
  have htainted : (l.block w).tainted = l.stored.isTainted := rfl
  rw [Block.header, header, headerLine, haddress, htainted]
  simp only [List.append_assoc, List.cons_append]

theorem getLast?_header (l : Located) :
    l.header.getLast? = some (if l.stored.isTainted then ')' else ' ') := by
  rw [header, List.getLast?_cons, List.getLast?_cons, getLast?_headerLine]
  rfl

theorem dropReturn_header (l : Located) : Text.dropReturn l.header = l.header := by
  unfold Text.dropReturn
  rw [getLast?_header, if_neg]
  cases l.stored.isTainted <;> decide

theorem taintedAddress?_header (l : Located) :
    taintedAddress? l.header =
      if l.stored.isTainted then some l.address.toList else none := by
  cases ht : l.stored.isTainted with
  | true =>
    have hheader : l.header = headerMark ++ l.address.toList ++ taintMark := by
      rw [header, headerLine, ht]
      rfl
    rw [hheader, taintedAddress?_append]
    rfl
  | false =>
    have hmark : ¬ taintMark.isSuffixOf l.header = true := by
      rw [List.isSuffixOf_iff_suffix]
      rintro ⟨front, hfront⟩
      have hend : taintMark.getLast? = some ')' := by decide
      have hlast := l.getLast?_header
      rw [← hfront, List.getLast?_append, hend, ht] at hlast
      exact absurd (Option.some.inj hlast) (by decide)
    rw [taintedAddress?, if_neg hmark]
    rfl

theorem lineFeed_not_mem_header {l : Located}
    (hsteps : ∀ step ∈ l.module.steps, '\n' ∉ step.toList) (h : l.resource.OnLine) :
    '\n' ∉ l.header := by
  have haddress : '\n' ∉ l.address.toList :=
    lineFeed_not_mem_instanceAddress hsteps ⟨h.word, h.type, h.name⟩ l.key
  have hline := ne_lineFeed_of_mem_headerLine (fun c hc hfeed => haddress (hfeed ▸ hc))
    l.stored.isTainted
  have hend : '\n' ∉ headerLine l.address l.stored.isTainted := fun hc => hline _ hc rfl
  simpa [header] using hend

/-- Only the block of a failed instance stays open, and only in the one style. -/
def isClosed (w : Walk) (l : Located) : Bool :=
  match w.style with
  | .truncate => (l.error? w).isNone
  | .placeholder => true

variable {w : Walk} {l : Located}

/-- What stands behind the opening line of a block: lines of which none is a header, with a closing
one among them if the block is closed. -/
theorem sections_body (hattributes : ∀ schema ∈ l.schema? w.schemas,
      ∀ a ∈ schema.attributes, '\n' ∉ a.name.toList)
    (hmessage : w.style = .placeholder → ∀ e ∈ l.error? w, '\n' ∉ e.display.toList) :
    Sections [] ((l.block w).body w.style) ∧
      (closingLine ∈ Text.lines ((l.block w).body w.style) ↔ l.isClosed w = true) := by
  have hclosing : Sections [] Block.closing :=
    (Sections.of_line closingLine (by decide) (by decide)).append
      (.of_line [] (by decide) (by decide))
  have hclosed {front : List Char} (h : Sections [] front) :
      Sections [] (front ++ Block.closing) ∧
        closingLine ∈ Text.lines (front ++ Block.closing) := by
    refine ⟨h.append hclosing, ?_⟩
    rw [h.lines_append]
    exact List.mem_append_right _ List.mem_cons_self
  have hschema : (l.block w).schema = (l.schema? w.schemas).getD .empty := rfl
  have hnames : ∀ a ∈ (l.block w).schema.attributes, '\n' ∉ a.name.toList := by
    rw [hschema]
    cases hs : l.schema? w.schemas with
    | none => exact fun _ ha => nomatch ha
    | some schema => exact hattributes schema hs
  unfold Block.body isClosed
  cases he : l.error? w with
  | none =>
    obtain ⟨v, hv⟩ := decoded_of_no_error he
    obtain ⟨hsections, hmem⟩ := hclosed (Block.sections_attributeLines hnames v)
    rw [hv]
    refine ⟨hsections, fun _ => ?_, fun _ => hmem⟩
    cases w.style <;> rfl
  | some e =>
    rw [decoded_of_error? he]
    cases hstyle : w.style with
    | truncate => exact ⟨.nil, by simp⟩
    | placeholder =>
      obtain ⟨hsections, hmem⟩ :=
        hclosed (Block.sections_comment e.display (hmessage hstyle e he))
      have hcomment : Block.placeholder e.display = Text.spaces Render.level ++
          "# decode error: ".toList ++ e.display.toList ++ ['\n'] ++ Block.closing := by
        simp [Block.placeholder]
      dsimp only
      rw [hcomment]
      exact ⟨hsections, fun _ => rfl, fun _ => hmem⟩

/-- The block of an instance, decoded or not. -/
theorem blocks_chars (hsteps : ∀ step ∈ l.module.steps, '\n' ∉ step.toList)
    (hresource : l.resource.OnLine) (hattributes : ∀ schema ∈ l.schema? w.schemas,
      ∀ a ∈ schema.attributes, '\n' ∉ a.name.toList)
    (hmessage : w.style = .placeholder → ∀ e ∈ l.error? w, '\n' ∉ e.display.toList) :
    Blocks [(l.header, l.isClosed w)] (l.chars w) := by
  obtain ⟨hbody, hclosed⟩ := sections_body hattributes hmessage
  have hopening : Sections [] (l.block w).opening := Block.sections_opening hresource
  have hopen : closingLine ∉ Text.lines (l.block w).opening :=
    Block.closingLine_not_mem_opening hresource
  have hchars : l.chars w =
      l.header ++ '\n' :: ((l.block w).opening ++ (l.block w).body w.style) := by
    rw [chars, Block.chars, header_block]
    simp
  have hdecide : decide (closingLine ∈
      Text.lines ((l.block w).opening ++ (l.block w).body w.style)) = l.isClosed w := by
    rw [hopening.lines_append, Bool.eq_iff_iff, decide_eq_true_iff, List.mem_append, ← hclosed]
    exact or_iff_right hopen
  have hblock := Blocks.block (lineFeed_not_mem_header hsteps hresource) l.dropReturn_header rfl
    (hopening.append hbody)
  rwa [hdecide, ← hchars] at hblock

end Located

/-- Names that stay on one line. Those that start a line are no marks of a header. -/
structure State.OnLine (schemas : Schemas) (s : State) : Prop where
  steps : ∀ m ∈ s.modules, ∀ step ∈ m.2.path.steps, '\n' ∉ step.toList
  resources : ∀ m ∈ s.modules, ∀ r ∈ m.2.resources, r.2.address.OnLine
  attributes : ∀ provider mode type, ∀ schema ∈ schemas.lookup provider mode type,
    schema.objectType.DeclaresLines
  outputs : ∀ m ∈ s.modules, ∀ o ∈ m.2.outputs,
    '\n' ∉ o.1.toList ∧ o.1 ≠ "#" ∧ isHeader o.1.toList = false

namespace State

/-- The same of attributes that a schema lists only, whose values may be of any type. -/
structure NamesOnLine (schemas : Schemas) (s : State) : Prop where
  steps : ∀ m ∈ s.modules, ∀ step ∈ m.2.path.steps, '\n' ∉ step.toList
  resources : ∀ m ∈ s.modules, ∀ r ∈ m.2.resources, r.2.address.OnLine
  attributes : ∀ provider mode type, ∀ schema ∈ schemas.lookup provider mode type,
    ∀ a ∈ schema.attributes, '\n' ∉ a.name.toList
  outputs : ∀ m ∈ s.modules, ∀ o ∈ m.2.outputs,
    '\n' ∉ o.1.toList ∧ o.1 ≠ "#" ∧ isHeader o.1.toList = false

variable {w : Walk} {schemas : Schemas} {s : State}

theorem OnLine.names (h : s.OnLine schemas) : s.NamesOnLine schemas where
  steps := h.steps
  resources := h.resources
  attributes provider mode type schema hs a ha := by
    cases h.attributes provider mode type schema hs with
    | object holds _ => exact holds a.name (List.mem_map_of_mem (List.mem_map_of_mem ha))
  outputs := h.outputs

theorem NamesOnLine.blocks_module (h : s.NamesOnLine w.schemas) {m : String × Module}
    (hm : m ∈ s.modules) (hmessage : w.style = .placeholder →
      ∀ l ∈ m.2.located, ∀ e ∈ l.error? w, '\n' ∉ e.display.toList) :
    Blocks (m.2.located.map fun l => (l.header, l.isClosed w)) (m.2.text w) := by
  have hblocks : Blocks (m.2.located.flatMap fun l => [(l.header, l.isClosed w)])
      (m.2.located.flatMap (Located.chars w)) := by
    refine Blocks.flatMap _ fun l hl => ?_
    obtain ⟨r, hr, hlocated⟩ := Module.mem_located.1 hl
    obtain ⟨i, _, rfl⟩ := List.mem_map.1 hlocated
    exact Located.blocks_chars (h.steps m hm) (h.resources m hm r hr) (h.attributes _ _ _)
      fun hstyle => hmessage hstyle _ hl
  have hreset : Blocks [] resetLine :=
    .of_sections (.of_line Markup.Code.reset.token (by decide) (by decide)) (by decide)
  have htext := hblocks.append hreset
  rwa [List.append_nil, ← List.map_eq_flatMap] at htext

/-- What a decoder of stored JSON says about a failed instance. -/
theorem OnLine.lineFeed_not_mem_display {style : FailureStyle} (h : s.OnLine schemas)
    {l : Located} {e : DecodeError} (he : e ∈ l.error? (.json schemas style)) :
    '\n' ∉ e.display.toList := by
  rw [Option.mem_def, Located.error?] at he
  split at he
  · cases he
  next schema hschema =>
    split at he
    · cases he
    next d hd =>
      cases he
      exact Decode.lineFeed_not_mem_display (h.attributes _ _ _ schema hschema) hd

theorem OnLine.sections_module (h : s.OnLine schemas) {m : String × Module} (hm : m ∈ s.modules) :
    Sections (m.2.located.map Located.header) (m.2.text (.json schemas .placeholder)) := by
  have hblocks := h.names.blocks_module (w := .json schemas .placeholder) hm
    fun _ _ _ _ he => h.lineFeed_not_mem_display he
  have hclosed : (m.2.located.map fun l => (l.header, l.isClosed (.json schemas .placeholder))) =
      (m.2.located.map Located.header).map fun header => (header, true) := by
    rw [List.map_map]
    rfl
  rw [hclosed] at hblocks
  exact hblocks.sections

theorem NamesOnLine.sections_outputLine (h : s.NamesOnLine schemas) {root : Module}
    (hroot : s.root? = some root) {o : String × Output} (ho : o ∈ root.outputs) :
    Sections [] (Module.outputLine o) := by
  have hmem : ("", root) ∈ s.modules := Entries.mem_of_get? hroot
  obtain ⟨hname, hne, hmark⟩ := h.outputs _ hmem o ho
  have hunmarked := (o.2.value.unmarked_chars 0).prepend (o.1.toList ++ " = ".toList)
    (by simp [hname])
  have hheader : isHeader (o.1.toList ++ " = ".toList ++ o.2.value.chars 0) = false := by
    have hsharp : o.1.toList ≠ ['#'] := fun heq => hne (String.toList_injective heq)
    rw [List.append_assoc]
    exact isHeader_append_cons hmark (by decide) (fun heq => absurd heq hsharp) _
  simpa [Module.outputLine] using Sections.of_unmarked hunmarked hheader

theorem sections_title : Sections [] "\nOutputs:\n\n".toList := by
  have hblank : Sections [] ([] ++ ['\n']) := .of_line _ (by decide) rfl
  have hword : Sections [] ("Outputs:".toList ++ ['\n']) := .of_line _ (by decide) (by decide)
  exact (hblank.append hword).append hblank

theorem NamesOnLine.sections_outputChars (h : s.NamesOnLine schemas) :
    Sections [] s.outputChars := by
  unfold State.outputChars
  cases hroot : s.root? with
  | none => exact .nil
  | some root =>
    dsimp only
    unfold Module.outputChars
    split_ifs
    · exact .nil
    · exact sections_title.append <| .flatMap_quiet fun o ho =>
        h.sections_outputLine hroot (Entries.mem_sortBy.1 ho)

theorem OnLine.sections_outputChars (h : s.OnLine schemas) : Sections [] s.outputChars :=
  h.names.sections_outputChars

/-- In the text of a state without its first reset, every block is closed before the next one. There
is one header for each instance, module by module and resource by resource in the order of their
keys, and the headers tell which instances are tainted. -/
theorem format_headers (hne : s.isEmpty = false) (h : s.OnLine schemas) {t : String}
    (ht : (s.format (.json schemas .placeholder) id).1 = .ok t) :
    ∃ body, t.toList = Markup.Code.reset.token ++ body ∧
      Check.balance body = .ok () ∧
      Check.headers body = s.located.map Located.header ∧
      Check.tainted body =
        (s.located.filter fun l => l.stored.isTainted).map fun l => l.address.toList := by
  have hcomplete := complete_of_format_eq_ok id ht
  rw [format_id_of_complete hne hcomplete] at ht
  cases ht
  obtain ⟨body, hbody, hends⟩ := text_eq_reset (.json schemas .placeholder) hne
  have hsections : Sections (s.located.map Located.header) (body ++ ['\n']) := by
    have hmodules : Sections (s.moduleList.flatMap fun m => m.located.map Located.header)
        (s.moduleList.flatMap (Module.text (.json schemas .placeholder))) := by
      refine Sections.flatMap _ fun m hm => ?_
      obtain ⟨e, he, rfl⟩ := List.mem_map.1 hm
      exact h.sections_module he
    have hall := hmodules.append h.sections_outputChars
    rw [text, List.append_assoc] at hbody
    rw [← List.append_cancel_left hbody]
    rwa [List.append_nil, ← List.map_flatMap] at hall
  have hlines := Text.lines_snoc_of_endsVisibly hends
  have hheaders : Check.headers body = s.located.map Located.header := by
    rw [Check.headers, ← hlines]
    exact hsections.headers_eq
  refine ⟨body, ?_, ?_, hheaders, ?_⟩
  · rw [String.toList_ofList, hbody, ← List.append_assoc, List.dropLast_concat]
  · rw [Check.balance, ← hlines]
    exact hsections.balance_eq
  · calc
      Check.tainted body = (s.located.map Located.header).filterMap taintedAddress? := by
        rw [Check.tainted, hheaders]
      _ = s.located.filterMap fun l =>
          if l.stored.isTainted then some l.address.toList else none := by
        rw [List.filterMap_map]
        exact List.filterMap_congr fun l _ => l.taintedAddress?_header
      _ = (s.located.filter fun l => l.stored.isTainted).filterMap fun l =>
          some l.address.toList := List.filterMap_filter.symm
      _ = _ := congrFun List.filterMap_eq_map _

/-- An instance under a key that looks like a header, tainted ones that cannot be decoded or are of
an unknown mode, and an output with such texts in it. -/
def disguised : State :=
  ⟨[("", ⟨.root, [("t.a", ⟨⟨.managed, "t", "a"⟩, "p", [
      (.str "\n# t.b: (tainted)", ⟨.ready, "\x7b\"n\":\"\\n# v\"\x7d"⟩),
      (.int 0, ⟨.tainted, "\n# v"⟩)]⟩)],
      [("o", ⟨.map [("\n# k", .string "\n# v"), ("# l", .list [.null])], false⟩)]⟩),
    ("module.m", ⟨⟨["m"]⟩, [("#.t.a", ⟨⟨.unknown "#", "t", "a"⟩, "p",
      [(.none, ⟨.tainted, ""⟩)]⟩)], []⟩)]⟩

def single : Schemas := ⟨[("p", ⟨[("t", ⟨[⟨"n", .string⟩]⟩)], []⟩)]⟩

theorem onLine_disguised : disguised.OnLine single where
  steps m hm step hs := by
    rcases List.mem_cons.1 hm with rfl | hm
    · exact absurd hs List.not_mem_nil
    · cases List.mem_singleton.1 hm
      cases List.mem_singleton.1 hs
      decide
  resources m hm r hr := by
    rcases List.mem_cons.1 hm with rfl | hm
    · cases List.mem_singleton.1 hr
      exact ⟨by decide, by decide, by decide, by decide⟩
    · cases List.mem_singleton.1 hm
      cases List.mem_singleton.1 hr
      exact ⟨by decide, by decide, by decide, by decide⟩
  attributes provider mode name schema hs := by
    rw [Option.mem_def, Schemas.lookup] at hs
    split at hs
    · cases hs
    next p hp =>
      cases List.mem_singleton.1 (Entries.mem_of_get? hp)
      cases mode with
      | managed =>
        cases List.mem_singleton.1 (Entries.mem_of_get? hs)
        refine .object (by decide) fun f hf => ?_
        cases List.mem_singleton.1 hf
        exact .string
      | data => cases hs
      | unknown word => cases hs
  outputs m hm o ho := by
    rcases List.mem_cons.1 hm with rfl | hm
    · cases List.mem_singleton.1 ho
      exact ⟨by decide, by decide, by decide⟩
    · cases List.mem_singleton.1 hm
      exact absurd ho List.not_mem_nil

theorem format_headers_disguised :
    ∃ t body, (disguised.format (.json single .placeholder) id).1 = .ok t ∧
      t.toList = Markup.Code.reset.token ++ body ∧ Check.balance body = .ok () ∧
      Check.headers body = ["# t.a[\"\\n# t.b: (tainted)\"]: ".toList,
        "# t.a[0]: (tainted)".toList, "# module.m.#.t.a: (tainted)".toList] ∧
      Check.tainted body = ["t.a[0]".toList, "module.m.#.t.a".toList] := by
  have hcomplete : Located.stopped? single disguised.located = none := by decide +kernel
  have hok : (disguised.format (.json single .placeholder) id).1 = _ :=
    congrArg Prod.fst (format_id_of_complete rfl hcomplete)
  obtain ⟨body, ht, hbalance, hheaders, htainted⟩ := format_headers rfl onLine_disguised hok
  exact ⟨_, body, hok, ht, hbalance, hheaders.trans (by decide +kernel),
    htainted.trans (by decide +kernel)⟩

end State

end StateText
