import Mathlib.Data.List.Chain
import StateText.Check
import StateText.Proofs.Ends

/-!
# Sections

A check reads a text line by line. `Sections` is a text of whole lines whose blocks are closed one
before the other; such texts stand one behind the other, and their headers with them. Of a longer
text it only has to be known that no line of it is a header: `Unmarked` says so of all lines but the
first, and is kept when texts are put together. `Blocks` is a text whose blocks may be left open,
with what a check finds open behind them.
-/

namespace StateText

namespace Text

theorem pieces_eq_splitOn (cs : List Char) : pieces cs = cs.splitOn '\n' := by
  induction cs with
  | nil => simp [List.splitOn]
  | cons c cs ih =>
    rw [pieces, ih, List.splitOn, List.splitOn, List.splitOnP_cons_eq_if_modifyHead]
    by_cases hc : c = '\n'
    · simp [hc]
    · rw [if_neg hc, if_neg (by simpa using hc)]
      cases h : cs.splitOnP (· == '\n') with
      | nil => exact absurd h (List.splitOnP_ne_nil _ _)
      | cons p ps => rfl

theorem pieces_append_lineFeed (cs ds : List Char) :
    pieces (cs ++ '\n' :: ds) = pieces cs ++ pieces ds := by
  simp only [pieces_eq_splitOn, List.splitOn]
  exact List.splitOnP_append_cons cs ds (by decide)

theorem pieces_of_not_mem {line : List Char} (h : '\n' ∉ line) : pieces line = [line] := by
  rw [pieces_eq_splitOn, List.splitOn_eq_singleton h]

theorem linesOfPieces_append (ps : List (List Char)) {qs : List (List Char)} (h : qs ≠ []) :
    linesOfPieces (ps ++ qs) = ps.map dropReturn ++ linesOfPieces qs := by
  obtain ⟨q, qs, rfl⟩ := List.exists_cons_of_ne_nil h
  induction ps with
  | nil => rfl
  | cons p ps ih =>
    rw [List.map_cons, List.cons_append, List.cons_append, ← ih]
    cases ps <;> rfl

/-- A line feed ends a line, and what follows starts another one. -/
theorem lines_append_lineFeed (cs ds : List Char) :
    lines (cs ++ '\n' :: ds) = (pieces cs).map dropReturn ++ lines ds := by
  rw [lines, pieces_append_lineFeed, linesOfPieces_append _ (pieces_ne_nil ds), lines]

theorem lines_snoc_lineFeed (cs : List Char) :
    lines (cs ++ ['\n']) = (pieces cs).map dropReturn := by
  rw [lines_append_lineFeed, lines_nil, List.append_nil]

theorem exists_pieces_snoc (cs : List Char) {c : Char} (hc : c ≠ '\n') :
    ∃ ps p, pieces (cs ++ [c]) = ps ++ [p ++ [c]] := by
  by_cases h : '\n' ∈ cs
  · obtain ⟨front, rest, hcs, hrest⟩ := List.eq_append_cons_of_mem (List.mem_reverse.2 h)
    have hsplit : cs = rest.reverse ++ '\n' :: front.reverse := by
      rw [← cs.reverse_reverse, hcs]
      simp
    refine ⟨pieces rest.reverse, front.reverse, ?_⟩
    have hlast : '\n' ∉ front.reverse ++ [c] := by simp [hrest, hc.symm]
    rw [hsplit, List.append_assoc, List.cons_append, pieces_append_lineFeed,
      pieces_of_not_mem hlast]
  · exact ⟨[], cs, pieces_of_not_mem (by simp [h, hc.symm])⟩

/-- The line feed behind a text that ends visibly makes no new line. -/
theorem lines_snoc_of_endsVisibly {cs : List Char} (h : EndsVisibly cs) :
    lines (cs ++ ['\n']) = lines cs := by
  obtain ⟨front, c, rfl, hc⟩ := h
  have hlineFeed : c ≠ '\n' := by
    rintro rfl
    exact absurd hc (by decide)
  have hreturn : c ≠ '\r' := by
    rintro rfl
    exact absurd hc (by decide)
  obtain ⟨ps, p, hps⟩ := exists_pieces_snoc front hlineFeed
  have hdrop : dropReturn (p ++ [c]) = p ++ [c] := by simp [dropReturn, hreturn]
  rw [lines_snoc_lineFeed, lines, hps, linesOfPieces_append _ (List.cons_ne_nil _ _),
    List.map_append, List.map_singleton, hdrop]
  simp [linesOfPieces]

end Text

open Text

namespace Check

/-- No line but the first may be taken for a header. -/
def Unmarked (cs : List Char) : Prop := cs.IsChain fun c d => c = '\n' → d ≠ '#'

namespace Unmarked

variable {cs ds : List Char}

theorem append (hcs : Unmarked cs) (hds : Unmarked ds) (h : ds.head? ≠ some '#') :
    Unmarked (cs ++ ds) := by
  refine List.isChain_append.2 ⟨hcs, hds, fun _ _ d hd _ => ?_⟩
  rintro rfl
  exact h hd

theorem of_not_mem (h : '\n' ∉ cs) : Unmarked cs := by
  refine List.Pairwise.isChain (List.pairwise_of_forall_mem_list fun c hc d _ hfeed => ?_)
  rw [hfeed] at hc
  exact absurd hc h

/-- A text may start anywhere in a line. -/
theorem prepend (line : List Char) (hline : '\n' ∉ line) (hcs : Unmarked cs) :
    Unmarked (line ++ cs) := by
  refine List.isChain_append.2 ⟨of_not_mem hline, hcs, ?_⟩
  rintro c hc _ _ rfl
  exact absurd (List.mem_of_getLast? hc) hline

theorem lineFeed (hcs : Unmarked cs) (h : cs.head? ≠ some '#') : Unmarked ('\n' :: cs) :=
  append (.singleton _) hcs h

theorem pieces (hcs : Unmarked cs) : ∃ p ps, Text.pieces cs = p :: ps ∧ p <+: cs ∧
    ∀ q ∈ ps, q.head? ≠ some '#' := by
  induction cs with
  | nil => exact ⟨[], [], rfl, List.prefix_refl _, fun q hq => absurd hq List.not_mem_nil⟩
  | cons c cs ih =>
    obtain ⟨hhead, hrest⟩ := List.isChain_cons.1 hcs
    obtain ⟨p, ps, hp, hprefix, hps⟩ := ih hrest
    by_cases hc : c = '\n'
    · subst hc
      refine ⟨[], p :: ps, by rw [pieces_lineFeed, hp], List.nil_prefix,
        List.forall_mem_cons.2 ⟨fun hmark => ?_, hps⟩⟩
      obtain ⟨t, rfl⟩ := hprefix
      cases p with
      | nil => cases hmark
      | cons d p => exact hhead d rfl rfl (Option.some.inj hmark)
    · exact ⟨c :: p, ps, by rw [Text.pieces, if_neg hc, hp],
        (List.prefix_cons_inj c).2 hprefix, hps⟩

end Unmarked

theorem isHeader_of_front {line cs : List Char} (h : line <+: cs) (hcs : isHeader cs = false) :
    isHeader line = false := by
  rw [isHeader, ← Bool.not_eq_true, List.isPrefixOf_iff_prefix] at *
  exact fun hline => hcs (hline.trans h)

theorem isHeader_dropReturn {line : List Char} (h : isHeader line = false) :
    isHeader (dropReturn line) = false := by
  have hprefix : dropReturn line <+: line := by
    unfold dropReturn
    split
    · exact List.dropLast_prefix line
    · exact List.prefix_refl line
  exact isHeader_of_front hprefix h

theorem Unmarked.forall_lines {cs : List Char} (hcs : Unmarked cs) (h : isHeader cs = false) :
    ∀ line ∈ lines (cs ++ ['\n']), isHeader line = false := by
  obtain ⟨p, ps, hpieces, hp, hps⟩ := hcs.pieces
  rw [lines_snoc_lineFeed, hpieces, List.forall_mem_map, List.forall_mem_cons]
  refine ⟨isHeader_dropReturn (isHeader_of_front hp h), fun q hq => isHeader_dropReturn ?_⟩
  cases q with
  | nil => rfl
  | cons c q =>
    have hc : c ≠ '#' := by simpa using hps _ hq
    simp [isHeader, headerMark, List.isPrefixOf, hc.symm]

/-- Lines that are no headers close what is open, or they leave it. -/
theorem imbalance?_append {ls : List (List Char)} (h : ∀ line ∈ ls, isHeader line = false)
    (open? : Option (List Char)) (rest : List (List Char)) :
    imbalance? open? (ls ++ rest) =
      imbalance? (if closingLine ∈ ls then none else open?) rest := by
  induction ls generalizing open? with
  | nil => rfl
  | cons line ls ih =>
    obtain ⟨hline, hls⟩ := List.forall_mem_cons.1 h
    rw [List.cons_append, imbalance?.eq_def]
    by_cases hclosing : line = closingLine
    · subst hclosing
      simp [hline, ih hls]
    · simp [hline, hclosing, Ne.symm hclosing, ih hls]

/-- Whole lines with these headers, and every block closed before the next one and the end. -/
structure Sections (hs : List (List Char)) (cs : List Char) : Prop where
  lines_append : ∀ rest, lines (cs ++ rest) = lines cs ++ lines rest
  headers_eq : headers cs = hs
  closed : ∀ rest, imbalance? none (lines cs ++ rest) = imbalance? none rest

namespace Sections

variable {hs hs' : List (List Char)} {cs cs' : List Char}

theorem nil : Sections [] [] := ⟨fun _ => rfl, rfl, fun _ => rfl⟩

theorem append (h : Sections hs cs) (h' : Sections hs' cs') :
    Sections (hs ++ hs') (cs ++ cs') where
  lines_append rest := by
    rw [List.append_assoc, h.lines_append, h'.lines_append, h.lines_append, List.append_assoc]
  headers_eq := by
    rw [headers, h.lines_append, List.filter_append, ← headers, ← headers, h.headers_eq,
      h'.headers_eq]
  closed rest := by
    rw [h.lines_append, List.append_assoc, h.closed, h'.closed]

theorem flatMap {α : Type} (header : α → List (List Char)) {f : α → List Char} {as : List α}
    (h : ∀ a ∈ as, Sections (header a) (f a)) :
    Sections (as.flatMap header) (as.flatMap f) := by
  induction as with
  | nil => exact nil
  | cons a as ih =>
    obtain ⟨ha, has⟩ := List.forall_mem_cons.1 h
    exact ha.append (ih has)

theorem flatMap_quiet {α : Type} {f : α → List Char} {as : List α}
    (h : ∀ a ∈ as, Sections [] (f a)) : Sections [] (as.flatMap f) := by
  have hsections := flatMap (fun _ => []) h
  rwa [List.flatMap_eq_nil_iff.2 fun _ _ => rfl] at hsections

/-- Lines without a header among them. -/
theorem of_forall (h : ∀ line ∈ lines (cs ++ ['\n']), isHeader line = false) :
    Sections [] (cs ++ ['\n']) where
  lines_append rest := by
    rw [List.append_assoc, List.singleton_append, lines_append_lineFeed, lines_snoc_lineFeed]
  headers_eq := List.filter_eq_nil_iff.2 fun line hline => by simp [h line hline]
  closed rest := by rw [imbalance?_append h, ite_self]

theorem of_unmarked (hcs : Unmarked cs) (h : isHeader cs = false) : Sections [] (cs ++ ['\n']) :=
  of_forall (hcs.forall_lines h)

theorem of_line (line : List Char) (hline : '\n' ∉ line) (h : isHeader line = false) :
    Sections [] (line ++ ['\n']) := of_unmarked (.of_not_mem hline) h

theorem isHeader_of_mem_lines (h : Sections [] cs) : ∀ line ∈ lines cs, isHeader line = false := by
  simpa using List.filter_eq_nil_iff.1 h.headers_eq

end Sections

/-- What a check finds in such a text. -/
theorem Sections.balance_eq {hs : List (List Char)} {cs : List Char} (h : Sections hs cs) :
    balance cs = .ok () := by
  have hclosed := h.closed []
  rw [List.append_nil] at hclosed
  rw [balance, hclosed]
  rfl

/-! ### Blocks that may be left open -/

/-- What is open behind these blocks, each with its header and whether it is closed, or the first
one that is not closed in time. -/
def openBehind (open? : Option (List Char)) :
    List (List Char × Bool) → Except Imbalance (Option (List Char))
  | [] => .ok open?
  | (header, closed) :: blocks =>
    match open? with
    | some header => .error (.beforeHeader header)
    | none => openBehind (if closed then none else some header) blocks

def resume (rest : List (List Char)) : Except Imbalance (Option (List Char)) → Option Imbalance
  | .error e => some e
  | .ok open? => imbalance? open? rest

structure Blocks (blocks : List (List Char × Bool)) (cs : List Char) : Prop where
  lines_append : ∀ rest, lines (cs ++ rest) = lines cs ++ lines rest
  headers_eq : headers cs = blocks.map Prod.fst
  run : ∀ open? rest, imbalance? open? (lines cs ++ rest) = resume rest (openBehind open? blocks)

theorem resume_openBehind_append (open? : Option (List Char))
    (blocks more : List (List Char × Bool)) {cs : List Char} (h : Blocks more cs)
    (rest : List (List Char)) :
    resume (lines cs ++ rest) (openBehind open? blocks) =
      resume rest (openBehind open? (blocks ++ more)) := by
  induction blocks generalizing open? with
  | nil => exact h.run open? rest
  | cons b blocks ih =>
    cases open? with
    | some header => rfl
    | none => exact ih _

namespace Blocks

variable {blocks blocks' : List (List Char × Bool)} {cs cs' : List Char}

theorem nil : Blocks [] [] := ⟨fun _ => rfl, rfl, fun _ _ => rfl⟩

theorem append (h : Blocks blocks cs) (h' : Blocks blocks' cs') :
    Blocks (blocks ++ blocks') (cs ++ cs') where
  lines_append rest := by
    rw [List.append_assoc, h.lines_append, h'.lines_append, h.lines_append, List.append_assoc]
  headers_eq := by
    rw [headers, h.lines_append, List.filter_append, ← headers, ← headers, h.headers_eq,
      h'.headers_eq, List.map_append]
  run open? rest := by
    rw [h.lines_append, List.append_assoc, h.run, resume_openBehind_append _ _ _ h']

theorem flatMap {α : Type} (block : α → List (List Char × Bool)) {f : α → List Char} {as : List α}
    (h : ∀ a ∈ as, Blocks (block a) (f a)) : Blocks (as.flatMap block) (as.flatMap f) := by
  induction as with
  | nil => exact nil
  | cons a as ih =>
    obtain ⟨ha, has⟩ := List.forall_mem_cons.1 h
    exact ha.append (ih has)

/-- Lines that open nothing and close nothing. -/
theorem of_sections (h : Sections [] cs) (hclosing : closingLine ∉ lines cs) : Blocks [] cs where
  lines_append := h.lines_append
  headers_eq := h.headers_eq
  run open? rest := by
    rw [imbalance?_append h.isHeader_of_mem_lines, if_neg hclosing]
    rfl

/-- A block has a header and lines below it that are none, and it is closed by one of them. -/
theorem block {header : List Char} (hline : '\n' ∉ header) (hreturn : dropReturn header = header)
    (hheader : isHeader header = true) (h : Sections [] cs) :
    Blocks [(header, decide (closingLine ∈ lines cs))] (header ++ '\n' :: cs) := by
  have hlines (rest : List Char) :
      lines (header ++ '\n' :: cs ++ rest) = header :: (lines cs ++ lines rest) := by
    rw [List.append_assoc, List.cons_append, lines_append_lineFeed, pieces_of_not_mem hline,
      h.lines_append, List.map_singleton, hreturn]
    rfl
  have hnil := hlines []
  rw [List.append_nil, lines_nil, List.append_nil] at hnil
  refine ⟨fun rest => ?_, ?_, fun open? rest => ?_⟩
  · rw [hlines, hnil]
    rfl
  · have hbody : (lines cs).filter isHeader = [] := h.headers_eq
    rw [headers, hnil, List.filter_cons_of_pos hheader, hbody]
    rfl
  · rw [hnil, List.cons_append, imbalance?.eq_def]
    cases open? with
    | some other => simp [hheader, openBehind, resume]
    | none =>
      dsimp only
      rw [if_pos hheader, imbalance?_append h.isHeader_of_mem_lines]
      simp [openBehind, resume]

theorem openBehind_closed {hs : List (List Char)} :
    openBehind none (hs.map fun header => (header, true)) = .ok none := by
  induction hs with
  | nil => rfl
  | cons header hs ih => exact ih

/-- Blocks that are all closed. -/
theorem sections {hs : List (List Char)}
    (h : Blocks (hs.map fun header => (header, true)) cs) : Sections hs cs where
  lines_append := h.lines_append
  headers_eq := by
    rw [h.headers_eq, List.map_map]
    exact List.map_id hs
  closed rest := by
    rw [h.run, openBehind_closed]
    rfl

end Blocks

end Check

end StateText
