import StateText.Proofs.LeftTokens

/-!
# Styles around text

Turning markup into styles changes nothing but styles. Each one is opened in front of a stretch of
text and closed right behind it, so with all of them taken out the text is the one without tokens:
`unstyled_ansi`.
-/

namespace StateText.Markup

theorem exists_behind {α : Type} {x : α} {line front as bs : List α} (hx : x ∉ line)
    (h : front ++ x :: as = line ++ bs) : ∃ rest, front = line ++ rest ∧ bs = rest ++ x :: as := by
  rcases List.append_eq_append_iff.1 h with ⟨cs, hline, hcs⟩ | ⟨rest, hfront, hbs⟩
  · cases cs with
    | nil => exact ⟨[], by simp [hline], by simpa using hcs.symm⟩
    | cons c cs =>
      rw [hline, (List.cons.inj hcs).1] at hx
      exact absurd (by simp) hx
  · exact ⟨rest, hfront, hbs⟩

/-! ### Changes of style -/

def sequence (codes : List Char) : List Char := '\x1b' :: '[' :: codes ++ ['m']

theorem sequence_append (codes cs : List Char) :
    sequence codes ++ cs = '\x1b' :: ('[' :: codes ++ 'm' :: cs) := by
  simp [sequence]

/-- A sequence ends at its first `m`. -/
theorem sequence_append_injective {codes codes' cs cs' : List Char} (h : 'm' ∉ codes)
    (h' : 'm' ∉ codes') (heq : sequence codes ++ cs = sequence codes' ++ cs') :
    codes = codes' ∧ cs = cs' := by
  rw [sequence_append, sequence_append] at heq
  have hcodes : codes ++ 'm' :: cs = codes' ++ 'm' :: cs' :=
    (List.cons.inj (List.cons.inj heq).2).2
  obtain ⟨rest, rfl, hrest⟩ := exists_behind h' hcodes
  cases rest with
  | nil => exact ⟨List.append_nil _, (List.cons.inj hrest).2.symm⟩
  | cons c rest =>
    rw [← (List.cons.inj hrest).1] at h
    exact absurd (by simp) h

/-- The text without its changes of style: an escape character and a bracket are taken out with
everything up to the next `m`, if there is one. -/
def unstyledFrom : (inside : Bool) → List Char → List Char
  | _, [] => []
  | true, c :: cs => unstyledFrom (c != 'm') cs
  | false, c :: cs =>
    if c = '\x1b' ∧ cs.head? = some '[' ∧ 'm' ∈ cs then unstyledFrom true cs
    else c :: unstyledFrom false cs

def unstyled (cs : List Char) : List Char := unstyledFrom false cs

theorem unstyled_cons {c : Char} (hc : c ≠ '\x1b') (cs : List Char) :
    unstyled (c :: cs) = c :: unstyled cs := by
  rw [unstyled, unstyledFrom, if_neg fun h => hc h.1, unstyled]

theorem unstyled_append {cs : List Char} (h : '\x1b' ∉ cs) (ds : List Char) :
    unstyled (cs ++ ds) = cs ++ unstyled ds := by
  induction cs with
  | nil => rfl
  | cons c cs ih =>
    obtain ⟨hc, hcs⟩ := not_or.1 (mt List.mem_cons.2 h)
    rw [List.cons_append, unstyled_cons (Ne.symm hc), ih hcs, List.cons_append]

theorem unstyledFrom_inside {codes : List Char} (h : 'm' ∉ codes) (cs : List Char) :
    unstyledFrom true (codes ++ 'm' :: cs) = unstyled cs := by
  induction codes with
  | nil => rfl
  | cons c codes ih =>
    obtain ⟨hc, hcodes⟩ := not_or.1 (mt List.mem_cons.2 h)
    have hinside : (c != 'm') = true := by simpa using Ne.symm hc
    rw [List.cons_append, unstyledFrom, hinside, ih hcodes]

theorem unstyled_sequence {codes : List Char} (h : 'm' ∉ codes) (cs : List Char) :
    unstyled (sequence codes ++ cs) = unstyled cs := by
  have hbracket : 'm' ∉ '[' :: codes := by simpa using h
  rw [sequence_append, unstyled, unstyledFrom, if_pos (by simp), unstyledFrom_inside hbracket]

/-! ### Styles that are not nested -/

structure Opens (codes : List Char) : Prop where
  unended : 'm' ∉ codes
  unescaped : '\x1b' ∉ codes
  not_closing : codes ≠ ['0']

/-- A text in which a style is opened in front of some text only, and closed behind it before
another one is opened. -/
inductive Painted : List Char → Prop
  | nil : Painted []
  | char {c : Char} {cs : List Char} (plain : c ≠ '\x1b') (rest : Painted cs) : Painted (c :: cs)
  | styled {codes cs ds : List Char} (opens : Opens codes) (shown : cs ≠ []) (plain : '\x1b' ∉ cs)
      (rest : Painted ds) : Painted (sequence codes ++ (cs ++ (Style.closing ++ ds)))

namespace Painted

theorem append {cs ds : List Char} (h : '\x1b' ∉ cs) (hds : Painted ds) : Painted (cs ++ ds) := by
  induction cs with
  | nil => exact hds
  | cons c cs ih =>
    obtain ⟨hc, hcs⟩ := not_or.1 (mt List.mem_cons.2 h)
    exact .char (Ne.symm hc) (ih hcs)

/-- A sequence stands at the front of a styled stretch, at its end or behind it. -/
theorem sequence_in_styled {codes codes' cs ds front behind : List Char} (hcodes : '\x1b' ∉ codes)
    (hcs : '\x1b' ∉ cs)
    (h : sequence codes ++ (cs ++ (Style.closing ++ ds)) = front ++ (sequence codes' ++ behind)) :
    front = [] ∨ Style.closing ++ ds = sequence codes' ++ behind ∨
      ∃ deeper, ds = deeper ++ (sequence codes' ++ behind) := by
  cases front with
  | nil => exact .inl rfl
  | cons c front =>
    refine .inr ?_
    have hfirst : '\x1b' ∉ '[' :: codes ++ 'm' :: cs := by simp [hcodes, hcs]
    have htail : front ++ '\x1b' :: ('[' :: codes' ++ 'm' :: behind) =
        ('[' :: codes ++ 'm' :: cs) ++ (Style.closing ++ ds) := by
      rw [sequence_append, sequence_append] at h
      simpa using (List.cons.inj h).2.symm
    obtain ⟨rest, _, hclosing⟩ := exists_behind hfirst htail
    rw [sequence_append]
    cases rest with
    | nil => exact .inl hclosing
    | cons d rest =>
      have hlast : '\x1b' ∉ "[0m".toList := by decide
      obtain ⟨deeper, _, hdeeper⟩ := exists_behind hlast (List.cons.inj hclosing).2.symm
      exact .inr ⟨deeper, hdeeper⟩

/-- Wherever a style is opened, there is text behind it and then its end. -/
theorem segment_of_sequence {t front codes behind : List Char} (ht : Painted t)
    (h : t = front ++ (sequence codes ++ behind)) (hend : 'm' ∉ codes) (hopens : codes ≠ ['0']) :
    ∃ segment rest, segment ≠ [] ∧ '\x1b' ∉ segment ∧
      behind = segment ++ (Style.closing ++ rest) := by
  induction ht generalizing front with
  | nil => simp [sequence] at h
  | char hc _ ih =>
    cases front with
    | nil => exact absurd (List.cons.inj h).1 hc
    | cons d front => exact ih (List.cons.inj h).2
  | @styled inner cs ds opens shown plain _ ih =>
    rcases sequence_in_styled opens.unescaped plain h with rfl | hclosing | ⟨deeper, hdeeper⟩
    · obtain ⟨_, hbehind⟩ := sequence_append_injective opens.unended hend h
      exact ⟨cs, ds, shown, plain, hbehind.symm⟩
    · have hzero : 'm' ∉ ['0'] := by decide
      exact absurd (sequence_append_injective hzero hend hclosing).1.symm hopens
    · exact ih hdeeper

end Painted

/-! ### Painting stretches -/

namespace Style

def IsShown (style : Style) : Prop := ∃ code : Code, style.color = code.color?

theorem isShown_plain : plain.IsShown := ⟨.reset, rfl⟩

theorem color_apply (style : Style) (code : Code) :
    (style.apply code).color = style.color ∨ (style.apply code).color = code.color? := by
  cases code with
  | bold => exact .inl rfl
  | dim => exact .inl rfl
  | _ => exact .inr rfl

theorem IsShown.apply {style : Style} (h : style.IsShown) (code : Code) :
    (style.apply code).IsShown := by
  rcases style.color_apply code with hcolor | hcolor
  · obtain ⟨shown, hshown⟩ := h
    exact ⟨shown, hcolor.trans hshown⟩
  · exact ⟨code, hcolor⟩

def codes (style : Style) : List Char := (";".intercalate (style.numbers.map toString)).toList

theorem IsShown.opens {style : Style} (h : style.IsShown) (hne : style.numbers ≠ []) :
    Opens style.codes := by
  have hall : ∀ code ∈ Code.all, ∀ bold dim : Bool,
      (⟨code.color?, bold, dim⟩ : Style).numbers ≠ [] →
        'm' ∉ codes ⟨code.color?, bold, dim⟩ ∧ '\x1b' ∉ codes ⟨code.color?, bold, dim⟩ ∧
          codes ⟨code.color?, bold, dim⟩ ≠ ['0'] := by
    decide
  obtain ⟨color, bold, dim⟩ := style
  obtain ⟨code, rfl⟩ := h
  obtain ⟨hend, hescape, hzero⟩ := hall code code.mem_all bold dim hne
  exact ⟨hend, hescape, hzero⟩

/-- A stretch in a style is opened and closed, or it is the stretch alone. -/
theorem IsShown.paint_append {style : Style} (h : style.IsShown) {cs ds : List Char}
    (hcs : '\x1b' ∉ cs) (hds : Painted ds) :
    Painted (style.paint cs ++ ds) ∧ unstyled (style.paint cs ++ ds) = cs ++ unstyled ds := by
  unfold paint
  split_ifs with hnil hplain
  · rw [hnil]
    exact ⟨hds, rfl⟩
  · exact ⟨hds.append hcs, unstyled_append hcs ds⟩
  · have hopens := h.opens hplain
    have hpainted : opening style.numbers ++ cs ++ closing ++ ds =
        sequence style.codes ++ (cs ++ (closing ++ ds)) := by
      simp only [List.append_assoc]
      rfl
    have hzero : 'm' ∉ ['0'] := by decide
    have hclosing : unstyled (closing ++ ds) = unstyled ds := unstyled_sequence hzero ds
    rw [hpainted]
    refine ⟨.styled hopens hnil hcs hds, ?_⟩
    rw [unstyled_sequence hopens.unended, unstyled_append hcs, hclosing]

end Style

theorem painted_paintSegments {style : Style} (h : style.IsShown)
    {segments : List (Code × List Char)} (hsegments : ∀ s ∈ segments, '\x1b' ∉ s.2) :
    Painted (paintSegments style segments) ∧
      unstyled (paintSegments style segments) = segments.flatMap Prod.snd := by
  induction segments generalizing style with
  | nil => exact ⟨.nil, rfl⟩
  | cons s segments ih =>
    obtain ⟨hs, hrest⟩ := List.forall_mem_cons.1 hsegments
    obtain ⟨hpainted, hunstyled⟩ := ih (h.apply s.1) hrest
    obtain ⟨hfirst, hchars⟩ := (h.apply s.1).paint_append hs hpainted
    rw [hunstyled] at hchars
    exact ⟨hfirst, hchars⟩

theorem painted_ansi {cs : List Char} (h : '\x1b' ∉ cs) :
    Painted (ansi cs) ∧ unstyled (ansi cs) = strip cs := by
  have hstrip : '\x1b' ∉ strip cs := fun hc => h ((strip_sublist cs).subset hc)
  rw [strip, List.mem_append, not_or] at hstrip
  have hsegments : ∀ s ∈ (segments cs).2, '\x1b' ∉ s.2 :=
    fun s hs hc => hstrip.2 (List.mem_flatMap.2 ⟨s, hs, hc⟩)
  obtain ⟨hpainted, hunstyled⟩ := painted_paintSegments Style.isShown_plain hsegments
  refine ⟨hpainted.append hstrip.1, ?_⟩
  rw [ansi, unstyled_append hstrip.1, hunstyled, strip]

/-- With its styles taken out, a painted text is the one without tokens. They are not nested: each
one is opened in front of some text without an escape character, and closed right behind it. -/
theorem unstyled_ansi {cs : List Char} (h : '\x1b' ∉ cs) :
    unstyled (ansi cs) = strip cs ∧ strip cs = erase cs ∧
      ∀ front codes behind, ansi cs = front ++ (sequence codes ++ behind) → 'm' ∉ codes →
        codes ≠ ['0'] → ∃ segment rest, segment ≠ [] ∧ '\x1b' ∉ segment ∧
          behind = segment ++ (sequence ['0'] ++ rest) := by
  obtain ⟨hpainted, hunstyled⟩ := painted_ansi h
  exact ⟨hunstyled, strip_eq_erase cs, fun _ _ _ => hpainted.segment_of_sequence⟩

/-- Two styles one behind the other, with text in brackets that is no token. -/
theorem unstyled_ansi_adjacent :
    let cs := "[bold][red]a[m[blue]b[reset]c[dim]".toList
    '\x1b' ∉ cs ∧ ansi cs = "\x1b[31;1ma[m\x1b[0m\x1b[34;1mb\x1b[0mc".toList ∧
      unstyled (ansi cs) = "a[mbc".toList ∧ strip cs = erase cs ∧
        ∃ segment rest, segment ≠ [] ∧ '\x1b' ∉ segment ∧
          "b\x1b[0mc".toList = segment ++ (sequence ['0'] ++ rest) := by
  intro cs
  have hescape : '\x1b' ∉ cs := by decide
  have hansi : ansi cs = "\x1b[31;1ma[m\x1b[0m\x1b[34;1mb\x1b[0mc".toList := by decide
  obtain ⟨hunstyled, herase, hsegment⟩ := unstyled_ansi hescape
  refine ⟨hescape, hansi, hunstyled.trans (by decide), herase,
    hsegment "\x1b[31;1ma[m\x1b[0m".toList "34;1".toList _ ?_ (by decide) (by decide)⟩
  rw [hansi]
  decide

end StateText.Markup
