import StateText.Proofs.Ends
import StateText.Proofs.Tokens

/-!
# Resets

A reset cuts a text in two parts that know nothing of each other: no token goes over it, and the
style is plain behind it. So the markup of a text may be resolved part by part, and the shown text
of a state is put together from the sections of its modules and its outputs, each resolved alone:
`resolved_by_sections`.
-/

namespace StateText

namespace Markup

/-! ### Both sides of a reset -/

/-- Behind a reset nothing is left of the styles in front of it. -/
theorem paintSegments_append_reset (style : Style) (front behind : List (Code × List Char))
    (cs : List Char) : paintSegments style (front ++ (.reset, cs) :: behind) =
      paintSegments style front ++ (cs ++ paintSegments .plain behind) := by
  induction front generalizing style with
  | nil =>
    rw [List.nil_append, paintSegments, paintSegments, Style.apply_reset, Style.paint_plain,
      List.nil_append]
  | cons s front ih =>
    rw [List.cons_append, paintSegments, ih, paintSegments, List.append_assoc]

theorem ansi_append_reset (cs ds : List Char) :
    ansi (cs ++ (Code.reset.token ++ ds)) = ansi cs ++ ansi ds := by
  rw [ansi, segments_append_token, ansi, ansi, paintSegments_append_reset, List.append_assoc]

namespace Treatment

def resolving (colored : Bool) : Treatment := if colored then .ansi else .strip

variable (colored : Bool)

theorem resolving_append_reset (cs ds : List Char) :
    (resolving colored).apply (cs ++ (Code.reset.token ++ ds)) =
      (resolving colored).apply cs ++ (resolving colored).apply ds := by
  cases colored with
  | false => exact strip_append_token .reset cs ds
  | true => exact ansi_append_reset cs ds

@[simp] theorem resolving_nil : (resolving colored).apply [] = [] := by
  cases colored <;> rfl

theorem resolving_cons {c : Char} (hc : c ≠ '[') (cs : List Char) :
    (resolving colored).apply (c :: cs) = c :: (resolving colored).apply cs := by
  have hcode := code?_cons_of_ne hc cs
  cases colored with
  | false => exact strip_cons hcode
  | true => exact congrArg (fun s => s.1 ++ paintSegments .plain s.2) (segments_cons hcode)

end Treatment

end Markup

open Markup

/-! ### Sections -/

namespace Module

def resolved (colored : Bool) (w : Walk) (m : Module) : List Char :=
  (Treatment.resolving colored).apply (m.located.flatMap (Located.chars w)) ++ ['\n']

theorem resolving_text_append (colored : Bool) (w : Walk) (m : Module) (cs : List Char) :
    (Treatment.resolving colored).apply (m.text w ++ cs) =
      m.resolved colored w ++ (Treatment.resolving colored).apply cs := by
  have htext : m.text w ++ cs =
      m.located.flatMap (Located.chars w) ++ (Code.reset.token ++ '\n' :: cs) := by
    rw [text, resetLine, List.append_assoc, List.append_assoc, List.singleton_append]
  rw [htext, Treatment.resolving_append_reset, Treatment.resolving_cons colored (by decide),
    resolved, List.append_assoc, List.singleton_append]

theorem resolving_texts_append (colored : Bool) (w : Walk) (ms : List Module) (cs : List Char) :
    (Treatment.resolving colored).apply (ms.flatMap (text w) ++ cs) =
      ms.flatMap (resolved colored w) ++ (Treatment.resolving colored).apply cs := by
  induction ms with
  | nil => rfl
  | cons m ms ih =>
    rw [List.flatMap_cons, List.append_assoc, resolving_text_append, ih, List.flatMap_cons,
      List.append_assoc]

end Module

namespace Text

theorem trim_append_lineFeed (cs : List Char) : trim (cs ++ ['\n']) = trim cs := by
  have hstart (cs : List Char) : trimStart ('\n' :: cs) = trimStart cs :=
    List.dropWhile_cons_of_pos (by decide)
  have hend (cs : List Char) : trimEnd (cs ++ ['\n']) = trimEnd cs := by
    rw [trimEnd, List.reverse_append, List.reverse_singleton, List.singleton_append, hstart,
      trimEnd]
  rw [trim, trim, trimStart, List.dropWhile_append, ← trimStart]
  split_ifs with hblank
  · rw [List.isEmpty_iff.1 hblank]
    rfl
  · exact hend _

end Text

namespace State

variable {s : State} (colored : Bool) (w : Walk)

/-- The line feed behind the text of a state is trimmed: that of the outputs or, where there are
none, the one behind the last reset. -/
theorem trim_resolving_text (hne : s.isEmpty = false) :
    Text.trim ((Treatment.resolving colored).apply (s.text w).dropLast) =
      Text.trim (s.moduleList.flatMap (Module.resolved colored w) ++
        (Treatment.resolving colored).apply s.outputChars.dropLast) := by
  have hreset (cs : List Char) : (Treatment.resolving colored).apply (Code.reset.token ++ cs) =
      (Treatment.resolving colored).apply cs := by
    have h := Treatment.resolving_append_reset colored [] cs
    rwa [Treatment.resolving_nil] at h
  by_cases ho : s.outputChars = []
  · have hms : s.moduleList ≠ [] := by simpa [moduleList, isEmpty] using hne
    let last := (s.moduleList.getLast hms).located.flatMap (Located.chars w)
    have htext : s.text w = Code.reset.token ++
        (s.moduleList.dropLast.flatMap (Module.text w) ++ (last ++ Code.reset.token)) ++ ['\n'] := by
      rw [text, ho, Text.flatMap_eq_append_getLast _ hms, Module.text, resetLine]
      simp only [List.append_assoc, List.append_nil, last]
    have hlast : (Treatment.resolving colored).apply (last ++ Code.reset.token) =
        (Treatment.resolving colored).apply last := by
      have h := Treatment.resolving_append_reset colored last []
      rwa [List.append_nil, Treatment.resolving_nil, List.append_nil] at h
    rw [htext, List.dropLast_concat, hreset, Module.resolving_texts_append, hlast,
      ← Text.trim_append_lineFeed, ho, List.dropLast_nil, Treatment.resolving_nil,
      List.append_nil, Text.flatMap_eq_append_getLast _ hms, List.append_assoc]
    rfl
  · rw [text, List.dropLast_append_of_ne_nil ho, List.append_assoc, hreset,
      Module.resolving_texts_append]

/-- Resolving markup takes a reset for the seam of two texts. So a shown state has the resolved
section of each of its modules, in which the markup of no other section counts, and behind them its
outputs, in which that of no module counts. -/
theorem resolved_by_sections :
    (∀ front behind : List Char,
      (Treatment.resolving colored).apply (front ++ Code.reset.token ++ behind) =
        (Treatment.resolving colored).apply front ++
          (Treatment.resolving colored).apply behind) ∧
    ∀ (w : Walk) (s : State) (t : String), s.isEmpty = false →
      (s.format w (Treatment.resolving colored).apply).1 = .ok t →
        t = String.ofList (Text.trim (s.moduleList.flatMap (Module.resolved colored w) ++
          (Treatment.resolving colored).apply s.outputChars.dropLast)) := by
  constructor
  · intro front behind
    rw [List.append_assoc, Treatment.resolving_append_reset]
  · intro w s t hne h
    have hcomplete := complete_of_format_eq_ok _ h
    rw [format_of_complete _ hne hcomplete, trim_text w hne] at h
    rw [← Except.ok.inj h, trim_resolving_text colored w hne]

def unclosed : State :=
  ⟨[("", ⟨.root, [("u.a.b[bold]", ⟨⟨.unknown "u", "a", "b[bold]"⟩, "p",
      [(.none, ⟨.ready, ""⟩)]⟩)], [("x", ⟨.string "[red]y", false⟩)]⟩),
    ("module.m", ⟨⟨["m"]⟩, [("u.a.c", ⟨⟨.unknown "u", "a", "c"⟩, "p",
      [(.none, ⟨.ready, ""⟩)]⟩)], []⟩)]⟩

theorem resolved_by_sections_unclosed :
    let w : Walk := .json .empty .truncate
    let t := "# u.a.b\x1b[1m: \nu.a.b\x1b[0m\x1b[1m\n\x7d\n\n\x1b[0m\n" ++
      "# module.m.u.a.c: \nu.a.c\n\x7d\n\n\n\nOutputs:\n\nx = \"\x1b[31my\"\x1b[0m"
    unclosed.isEmpty = false ∧ (unclosed.format w (Treatment.resolving true).apply).1 = .ok t ∧
      t = String.ofList (Text.trim (unclosed.moduleList.flatMap (Module.resolved true w) ++
        (Treatment.resolving true).apply unclosed.outputChars.dropLast)) := by
  intro w t
  have hshown : (unclosed.format w (Treatment.resolving true).apply).1 = .ok t := by
    decide +kernel
  exact ⟨rfl, hshown, (resolved_by_sections true).2 w unclosed t rfl hshown⟩

end State

end StateText
