import StateText.Proofs.Arranged
import StateText.Proofs.Tokens
import StateText.Proofs.WholeNumbers

/-!
# Lines of scalar outputs

Numbers, truth values and null are written on one line, in the list of all outputs and in the text
of a state. `scalar_line` compares the two lines: they are the same, unless the value is a whole
floating-point number below `wholeLimit`, which has a fraction in the list.
-/

namespace StateText

namespace Text

/-- Trimming does not go past what shows. -/
theorem trimStart_append_cons (cs ds : List Char) {c : Char} (hc : isBlank c = false) :
    trimStart (cs ++ c :: ds) = trimStart cs ++ c :: ds := by
  unfold trimStart
  induction cs with
  | nil => simp [hc]
  | cons d cs ih =>
    rw [List.cons_append, List.dropWhile_cons, List.dropWhile_cons, ih]
    split_ifs <;> rfl

theorem trimEnd_append {cs : List Char} (h : EndsVisibly cs) (ds : List Char) :
    trimEnd (cs ++ ds) = cs ++ trimEnd ds := by
  obtain ⟨front, c, rfl, hc⟩ := h
  have hreverse : (front ++ [c] ++ ds).reverse = ds.reverse ++ c :: front.reverse := by simp
  rw [trimEnd, hreverse, trimStart_append_cons _ _ hc, trimEnd]
  simp

theorem isPrefix_trimEnd (cs : List Char) : trimEnd cs <+: cs := by
  obtain ⟨blanks, h⟩ := List.dropWhile_suffix isBlank (l := cs.reverse)
  refine ⟨blanks.reverse, ?_⟩
  rw [trimEnd, ← List.reverse_append, trimStart, h, List.reverse_reverse]

/-- Trimming leaves what stands between something that shows and a line. -/
theorem trim_around (front cs behind : List Char) {line : List Char} {c : Char}
    (hc : isBlank c = false) (hline : EndsVisibly line) :
    trim (front ++ c :: (cs ++ (line ++ behind))) =
      trimStart front ++ c :: (cs ++ (line ++ trimEnd behind)) := by
  have hends := hline.append (trimStart front ++ c :: cs)
  have htrimEnd := trimEnd_append hends behind
  rw [trim, trimStart_append_cons _ _ hc]
  simpa only [List.append_assoc, List.cons_append] using htrimEnd

end Text

open Text Markup

def Below (cs : List Char) : Prop := cs = [] ∨ ∃ ds, cs = '\n' :: ds

theorem Below.of_isPrefix {cs ds : List Char} (hcs : Below cs) (h : ds <+: cs) : Below ds := by
  cases ds with
  | nil => exact .inl rfl
  | cons d ds =>
    rcases hcs with rfl | ⟨es, rfl⟩
    · exact absurd (List.prefix_nil.1 h) (List.cons_ne_nil _ _)
    · rw [List.cons_prefix_cons] at h
      exact .inr ⟨ds, by rw [h.1]⟩

theorem Below.strip_append {cs : List Char} (h : Below cs) (line : List Char) :
    ∃ ds, Below ds ∧ strip (line ++ cs) = strip line ++ ds := by
  rcases h with rfl | ⟨es, rfl⟩
  · exact ⟨[], .inl rfl, by rw [List.append_nil, List.append_nil]⟩
  · exact ⟨_, .inr ⟨_, rfl⟩, strip_append_cons (.inl rfl) _ _⟩

def Lines (cs : List Char) : Prop := cs = [] ∨ ∃ ds, cs = ds ++ ['\n']

theorem Lines.strip_append {cs : List Char} (h : Lines cs) (rest : List Char) :
    strip (cs ++ rest) = strip cs ++ strip rest := by
  rcases h with rfl | ⟨ds, rfl⟩
  · rfl
  · rw [List.append_assoc, List.singleton_append, strip_append_cons (.inl rfl),
      strip_append_cons (.inl rfl), strip_nil, List.append_assoc, List.singleton_append]

theorem strip_heading (blocks lines : List Char) :
    strip (blocks ++ ("\nOutputs:\n\n".toList ++ lines)) =
      strip blocks ++ ("\nOutputs:\n\n".toList ++ strip lines) := by
  have hheading (cs : List Char) :
      "\nOutputs:\n\n".toList ++ cs = '\n' :: ("Outputs:".toList ++ '\n' :: ([] ++ '\n' :: cs)) :=
    rfl
  have htitle : strip "Outputs:".toList = "Outputs:".toList :=
    (tokenFree_of_not_mem (by decide)).strip_eq
  rw [hheading, hheading, strip_append_cons (.inl rfl), strip_append_cons (.inl rfl),
    strip_append_cons (.inl rfl), htitle, strip_nil]

/-- The lines of outputs as they are shown: what stands in front of the heading may be trimmed, and
what stands below the line, but not the line. -/
theorem finished_lines (blocks : List Char) {above line below : List Char} {c : Char}
    (hc : isBlank c = false) (habove : Lines above) (hline : EndsVisibly line)
    (hplain : strip line = line) (hbelow : Below below) :
    ∃ front rest, Below rest ∧
      State.finished .strip
          (c :: (blocks ++ ("\nOutputs:\n\n".toList ++ (above ++ (line ++ below))))) =
        String.ofList (front ++ ("Outputs:\n\n".toList ++ (strip above ++ (line ++ rest)))) := by
  obtain ⟨kept, hkept, hstrip⟩ : ∃ kept, Below kept ∧
      strip (line ++ trimEnd below) = line ++ kept := by
    have h := (hbelow.of_isPrefix (isPrefix_trimEnd below)).strip_append line
    rwa [hplain] at h
  have hfirst := trim_around [] (blocks ++ ("\nOutputs:\n\n".toList ++ above)) below hc hline
  have hresolved : strip (c :: (blocks ++ ("\nOutputs:\n\n".toList ++
      (above ++ (line ++ trimEnd below))))) =
        strip (c :: blocks) ++ ("\nOutputs:\n\n".toList ++ (strip above ++ (line ++ kept))) := by
    rw [← List.cons_append, strip_heading, habove.strip_append, hstrip]
  have hsecond := trim_around (c := 'O') (strip (c :: blocks) ++ ['\n'])
    ("utputs:\n\n".toList ++ strip above) kept (by decide) hline
  have hheading (cs : List Char) :
      "\nOutputs:\n\n".toList ++ cs = '\n' :: 'O' :: ("utputs:\n\n".toList ++ cs) := rfl
  refine ⟨trimStart (strip (c :: blocks) ++ ['\n']), trimEnd kept,
    hkept.of_isPrefix (isPrefix_trimEnd kept), ?_⟩
  simp only [List.nil_append, List.append_assoc] at hfirst
  simp only [List.append_assoc, List.singleton_append, ← hheading] at hsecond
  rw [State.finished, hfirst]
  change String.ofList (trim (strip (c :: (blocks ++ ("\nOutputs:\n\n".toList ++
    (above ++ (line ++ trimEnd below))))))) = _
  rw [hresolved, hsecond]
  rfl

namespace Value

def IsScalar : Value → Prop
  | null | number _ | bool _ => True
  | _ => False

/-- What a value has behind it in the list of all outputs. -/
def fraction : Value → List Char
  | number n => n.fraction
  | _ => []

theorem fraction_eq_nil_iff {v : Value} : v.fraction = [] ↔
    ∀ x n, v = number (.float x) → x.whole? = some n → Literal.wholeLimit ≤ n := by
  constructor
  · rintro h x n rfl hwhole
    by_contra hlt
    rw [fraction, Number.fraction, hwhole] at h
    dsimp only at h
    rw [if_pos (Nat.lt_of_not_le hlt)] at h
    cases h
  · intro h
    cases v with
    | number n =>
      cases n with
      | float x =>
        rw [fraction, Number.fraction]
        cases hwhole : x.whole? with
        | none => rfl
        | some n => exact if_neg (Nat.not_lt.2 (h x n rfl hwhole))
      | _ => rfl
    | _ => rfl

theorem IsScalar.bracket_not_mem {v : Value} (h : v.IsScalar) : '[' ∉ v.chars 0 := by
  cases v with
  | null => exact show '[' ∉ "null".toList by decide
  | number n =>
    exact fun hmem => absurd ((Number.numeral_literal n).forall_isNumeral _ hmem) (by decide)
  | bool b =>
    cases b with
    | true => exact show '[' ∉ "true".toList by decide
    | false => exact show '[' ∉ "false".toList by decide
  | _ => exact h.elim

theorem IsScalar.output_eq {v : Value} (h : v.IsScalar) {name : List Char} (hname : name ≠ []) :
    Plain.output name v.toJson = name ++ ' ' :: '=' :: ' ' :: (v.chars 0 ++ v.fraction) := by
  cases v with
  | null => exact if_neg hname
  | number n =>
    have houtput : Plain.output name (number n).toJson = name ++ ' ' :: '=' :: ' ' :: n.text :=
      if_neg hname
    rw [houtput, Number.text_eq_literal_append]
    rfl
  | bool b => cases b <;> exact if_neg hname
  | _ => exact h.elim

end Value

def shownLine (name : String) (v : Value) : List Char :=
  name.toList ++ ' ' :: '=' :: ' ' :: v.chars 0

theorem outputLine_eq (o : String × Output) :
    Module.outputLine o = shownLine o.1 o.2.value ++ ['\n'] := by
  simp [Module.outputLine, shownLine]

theorem lines_flatMap_outputLine (os : Entries String Output) :
    Lines (os.flatMap Module.outputLine) := by
  by_cases hnil : os = []
  · exact .inl (by rw [hnil, List.flatMap_nil])
  · let last := os.getLast hnil
    refine .inr ⟨os.dropLast.flatMap Module.outputLine ++ shownLine last.1 last.2.value, ?_⟩
    rw [flatMap_eq_append_getLast _ hnil, outputLine_eq, List.append_assoc]

theorem endsVisibly_shownLine (name : String) (v : Value) : EndsVisibly (shownLine name v) := by
  have h := (v.endsVisibly_chars 0).append (name.toList ++ [' ', '=', ' '])
  simpa [shownLine] using h

theorem strip_shownLine {name : String} {v : Value} (hname : TokenFree name.toList)
    (hv : v.IsScalar) : strip (shownLine name v) = shownLine name v := by
  have hbracket : '[' ∉ '=' :: ' ' :: v.chars 0 := by simp [hv.bracket_not_mem]
  rw [shownLine, strip_append_cons (.inr rfl), hname.strip_eq,
    (tokenFree_of_not_mem hbracket).strip_eq]

/-- The line of a scalar in the list of all outputs. -/
theorem Value.IsScalar.outputLine_eq {name : String} {o : Output} (hv : o.value.IsScalar)
    (hopen : o.sensitive = false) (hne : name ≠ "") :
    Command.outputLine name o =
      String.ofList (shownLine name o.value ++ o.value.fraction) ++ "\n" := by
  have hne' : name.toList ≠ [] := by simpa using hne
  rw [Command.outputLine, if_neg (by rw [hopen]; decide), hv.output_eq hne', shownLine]
  simp only [List.append_assoc, List.cons_append]

/-- The line of a scalar in the text of a state. -/
theorem State.exists_shown_line {s : State} {name : String} {o : Output}
    {before behind : Entries String Output}
    (hsorted : Entries.sorted s.outputEntries = before ++ (name, o) :: behind)
    (hname : TokenFree name.toList) (hv : o.value.IsScalar) {schemas : Schemas}
    {mode : FailureStyle} {t : String} (ht : (s.shown schemas mode .strip).1 = .ok t) :
    ∃ front below, t ++ "\n" = front ++ "Outputs:\n\n" ++
      String.ofList (strip (before.flatMap Module.outputLine)) ++
        String.ofList (shownLine name o.value) ++ "\n" ++ below := by
  have houtputs : s.outputEntries ≠ [] := by
    intro hnil
    rw [hnil] at hsorted
    exact List.append_ne_nil_of_right_ne_nil before (List.cons_ne_nil _ _) hsorted.symm
  have hheading : s.heading = "\nOutputs:\n\n".toList := if_neg houtputs
  obtain ⟨cs, hcs⟩ : ∃ cs, s.blocks (.json schemas mode) = '[' :: cs := ⟨_, rfl⟩
  obtain ⟨front, rest, hrest, hfinished⟩ := finished_lines cs (c := '[') (by decide)
    (lines_flatMap_outputLine before) (endsVisibly_shownLine name o.value)
    (strip_shownLine hname hv) (.inr ⟨behind.flatMap Module.outputLine, rfl⟩)
  have htext := shown_of_ok (isEmpty_of_outputEntries houtputs) ht
  rw [hcs, hheading, outputLines, hsorted, List.flatMap_append, List.flatMap_cons,
    outputLine_eq, List.append_assoc, List.singleton_append, List.cons_append, hfinished] at htext
  rw [htext]
  rcases hrest with rfl | ⟨ds, rfl⟩
  · refine ⟨String.ofList front, "", String.toList_inj.1 ?_⟩
    simp
  · refine ⟨String.ofList front, String.ofList ds ++ "\n", String.toList_inj.1 ?_⟩
    simp

open Command

/-- An output that is a number, a truth value or null has the same line in the list of all outputs
and in the text of a state, unless it is a whole floating-point number below the limit: this has a
fraction in the list only. -/
theorem State.scalar_line {s : State} {name : String} {o : Output}
    (ho : Entries.get? name s.outputEntries = some o) (hopen : o.sensitive = false)
    (hne : name ≠ "") (hname : TokenFree name.toList) (hv : o.value.IsScalar) :
    ∃ before behind, Entries.sorted s.outputEntries = before ++ (name, o) :: behind ∧
      (o.value.fraction = [] ↔
        ∀ x n, o.value = .number (.float x) → x.whole? = some n → Literal.wholeLimit ≤ n) ∧
      (∀ colored, (printOutputs s none colored).stdout =
        String.join (before.map fun p => outputLine p.1 p.2) ++
          String.ofList (shownLine name o.value ++ o.value.fraction) ++ "\n" ++
            String.join (behind.map fun p => outputLine p.1 p.2)) ∧
      ∀ schemas mode, (showState s schemas mode false).exitCode = 0 → ∃ front below,
        (showState s schemas mode false).stdout =
          front ++ "Outputs:\n\n" ++
            String.ofList (strip (before.flatMap Module.outputLine)) ++
              String.ofList (shownLine name o.value) ++ "\n" ++ below := by
  have hmem : (name, o) ∈ Entries.sorted s.outputEntries :=
    Entries.mem_sortBy.2 (Entries.mem_of_get? ho)
  obtain ⟨before, behind, hsorted⟩ := List.append_of_mem hmem
  have houtputs : s.outputEntries ≠ [] := by
    intro hnil
    rw [hnil] at ho
    cases ho
  refine ⟨before, behind, hsorted, Value.fraction_eq_nil_iff, fun colored => ?_,
    fun schemas mode hexit => ?_⟩
  · rw [printOutputs_none, if_neg houtputs, hsorted, List.map_append, List.map_cons,
      hv.outputLine_eq hopen hne]
    change String.join _ = _
    rw [String.join_append, String.join_cons]
    simp only [String.append_assoc]
  · cases hshown : (s.shown schemas mode .strip).1 with
    | error e =>
      rw [showState_of_error false hshown] at hexit
      cases hexit
    | ok t =>
      rw [showState_of_ok false hshown]
      exact exists_shown_line hsorted hname hv hshown

namespace State

def counted (n : Number) : State := ⟨[("", ⟨.root, [], [("count", ⟨.number n, false⟩)]⟩)]⟩

theorem scalar_line_counted :
    let s := counted (.natural 2 (by decide))
    ∃ before behind front below,
      (printOutputs s none false).stdout = before ++ "count = 2" ++ "\n" ++ behind ∧
        (showState s ⟨[]⟩ .truncate false).stdout =
          front ++ "count = 2" ++ "\n" ++ below := by
  intro s
  have hget : Entries.get? "count" s.outputEntries =
      some ⟨.number (.natural 2 (by decide)), false⟩ := rfl
  have hplain : TokenFree "count".toList := tokenFree_of_not_mem (by decide)
  obtain ⟨before, behind, _, _, hlist, hshow⟩ :=
    scalar_line hget rfl (by decide) hplain trivial
  obtain ⟨front, below, htext⟩ := hshow ⟨[]⟩ .truncate (by decide +kernel)
  exact ⟨_, _, _, _, hlist false, htext⟩

/-- A whole floating-point number has a fraction in one line and none in the other. -/
theorem scalar_line_whole :
    ∃ s, parse "\x7b\"modules\":[[[],[],\x7b\"count\":[2.0]\x7d]]\x7d" = .ok s ∧
      (printOutputs s none false).stdout = "count = 2.0\n" ∧
      (showState s ⟨[]⟩ .truncate false).stdout = "Outputs:\n\ncount = 2\n" := by
  obtain ⟨s, hs, htexts⟩ : ∃ s,
      parse "\x7b\"modules\":[[[],[],\x7b\"count\":[2.0]\x7d]]\x7d" = .ok s ∧
        ((printOutputs s none false).stdout, (showState s ⟨[]⟩ .truncate false).stdout) =
          ("count = 2.0\n", "Outputs:\n\ncount = 2\n") :=
    exists_of_map_toOption (by decide +kernel)
  obtain ⟨hlist, hshow⟩ := Prod.mk.inj htexts
  exact ⟨s, hs, hlist, hshow⟩

end State

end StateText
