import StateText.Proofs.Arranged
import StateText.Proofs.LoadedState

/-!
# Sensitive outputs

Two states that differ only in the values of sensitive outputs of the root module cannot be told
apart by the list of all outputs. The text of a state has these values: the texts of two such
states are the same up to the lines of sensitive outputs, and so is everything else about the
command that shows a state.
-/

namespace StateText

/-! ### Concealed states -/

def Output.concealed (o : Output) : Output := if o.sensitive then ⟨.null, true⟩ else o

namespace Module

def concealed (m : Module) : Module :=
  { m with outputs := m.outputs.map fun o => (o.1, o.2.concealed) }

end Module

namespace State

def concealed (s : State) : State :=
  ⟨s.modules.map fun m => (m.1, if m.1 = ModulePath.root.text then m.2.concealed else m.2)⟩

/-- Equal but for the values of sensitive outputs of the root module, and for orders that mean
nothing. -/
def Indistinguishable (s s' : State) : Prop := s.concealed.Reordered s'.concealed

theorem outputEntries_concealed (s : State) :
    s.concealed.outputEntries = s.outputEntries.map fun o => (o.1, o.2.concealed) := by
  have hget : Entries.get? ModulePath.root.text s.concealed.modules =
      (Entries.get? ModulePath.root.text s.modules).map Module.concealed :=
    Entries.get?_map_values _
      (fun key (m : Module) => if key = ModulePath.root.text then m.concealed else m) _
  rw [outputEntries, outputEntries, root?, root?, module?, module?, hget]
  cases Entries.get? ModulePath.root.text s.modules <;> rfl

/-- Sensitive outputs do not matter to the instances. -/
theorem shownGroups_concealed (s : State) : s.concealed.shownGroups = s.shownGroups := by
  rw [shownGroups_eq_map, shownGroups_eq_map, concealed, List.map_map]
  refine List.map_congr_left fun m _ => ?_
  dsimp only [Function.comp]
  split_ifs <;> rfl

theorem Reordered.outputEntries {s s' : State} (h : s.Reordered s') :
    Entries.Reordered Output.Reordered s.outputEntries s'.outputEntries := by
  have hroot : Option.Rel Module.Reordered s.root? s'.root? := Entries.forall₂_get? _ h
  unfold State.outputEntries
  generalize s.root? = root at hroot ⊢
  generalize s'.root? = root' at hroot ⊢
  cases hroot with
  | none => exact ⟨List.nodup_nil, _, .refl _, .nil⟩
  | some hm => exact hm.outputs

end State

/-! ### Outputs one by one -/

structure Output.Veiled (o o' : String × Output) : Prop where
  name_eq : o.1 = o'.1
  sensitive_eq : o.2.sensitive = o'.2.sensitive
  value : o.2.sensitive = false → o.2.value.Reordered o'.2.value

theorem Output.veiled_of_concealed {o o' : String × Output} (hname : o.1 = o'.1)
    (h : o.2.concealed.Reordered o'.2.concealed) : Output.Veiled o o' := by
  have hmark (p : Output) : p.concealed.sensitive = p.sensitive := by
    unfold concealed
    split_ifs with hp
    · exact hp.symm
    · rfl
  have hsensitive : o.2.sensitive = o'.2.sensitive := by
    rw [← hmark, ← hmark o'.2, h.sensitive_eq]
  refine ⟨hname, hsensitive, fun hopen => ?_⟩
  have hopen' : o'.2.sensitive = false := hsensitive ▸ hopen
  have hvalue := h.value
  rwa [concealed, if_neg (by rw [hopen]; decide), concealed,
    if_neg (by rw [hopen']; decide)] at hvalue

namespace Output.Veiled

variable {o o' : String × Output}

/-- The list of all outputs shows no difference. -/
theorem line_eq (h : Veiled o o') :
    Command.outputLine o.1 o.2 = Command.outputLine o'.1 o'.2 := by
  unfold Command.outputLine
  rw [← h.name_eq, ← h.sensitive_eq]
  split
  · rfl
  next hopen => rw [(h.value (Bool.eq_false_iff.2 hopen)).toJson_eq]

theorem shownLine_eq (h : Veiled o o') (hopen : o.2.sensitive = false) :
    Module.outputLine o = Module.outputLine o' := by
  rw [Module.outputLine, Module.outputLine, h.name_eq, (h.value hopen).chars_eq]

end Output.Veiled

namespace State.Indistinguishable

variable {s s' : State}

theorem outputEntries (h : s.Indistinguishable s') :
    List.Forall₂ Output.Veiled (Entries.sorted s.outputEntries)
      (Entries.sorted s'.outputEntries) := by
  have hsorted := (Reordered.outputEntries h).sorted
  rw [outputEntries_concealed, outputEntries_concealed, Entries.sorted, Entries.sorted,
    Entries.sortBy_map, Entries.sortBy_map, List.forall₂_map_left_iff,
    List.forall₂_map_right_iff] at hsorted
  exact hsorted.imp fun o o' ho => Output.veiled_of_concealed ho.1 ho.2

theorem outputEntries_eq_nil_iff (h : s.Indistinguishable s') :
    s.outputEntries = [] ↔ s'.outputEntries = [] := by
  have hlength : s.outputEntries.length = s'.outputEntries.length := by
    have hsorted := h.outputEntries.length_eq
    rwa [Entries.sorted, Entries.sorted, Entries.length_sortBy, Entries.length_sortBy] at hsorted
  rw [← List.length_eq_zero_iff, hlength, List.length_eq_zero_iff]

theorem shownGroups_eq (h : s.Indistinguishable s')
    (hs : ∀ m ∈ s.modules, ∀ r ∈ m.2.resources, (Entries.keys r.2.instances).Nodup) :
    s.shownGroups = s'.shownGroups := by
  rw [← shownGroups_concealed s, ← shownGroups_concealed s']
  refine Reordered.shownGroups_eq h fun m hm r hr => ?_
  obtain ⟨d, hd, rfl⟩ := List.mem_map.1 hm
  refine hs d hd r ?_
  dsimp only at hr
  split_ifs at hr <;> exact hr

theorem isEmpty_eq (h : s.Indistinguishable s') : s.isEmpty = s'.isEmpty := by
  have hconcealed (s : State) : s.concealed.isEmpty = s.isEmpty := List.isEmpty_map
  rw [← hconcealed s, ← hconcealed s', Reordered.isEmpty_eq h]

theorem located_eq (h : s.Indistinguishable s') (hs : s.Filed) :
    s.arranged.located = s'.arranged.located := by
  rw [← flatten_shownGroups, h.shownGroups_eq hs.instances, flatten_shownGroups]

section Shown

variable (h : s.Indistinguishable s') (hs : s.Filed) (schemas : Schemas) (mode : FailureStyle)
  (color : Markup.Treatment)

include h hs

theorem shown_error_iff (e : MissingSchema) :
    (s.shown schemas mode color).1 = .error e ↔ (s'.shown schemas mode color).1 = .error e := by
  rw [shown, format_eq_error_iff, h.located_eq hs, shown, format_eq_error_iff]

theorem shown_diagnostics_eq :
    (s.shown schemas mode color).2 = (s'.shown schemas mode color).2 := by
  rw [shown, format_diagnostics, h.located_eq hs, shown, format_diagnostics]

theorem shown_ok_iff : (∃ t, (s.shown schemas mode color).1 = .ok t) ↔
    ∃ t, (s'.shown schemas mode color).1 = .ok t := by
  have hok {ε α : Type} (x : Except ε α) : (∃ t, x = .ok t) ↔ ∀ e, x ≠ .error e := by
    cases x <;> simp
  rw [hok, hok]
  simp only [ne_eq, h.shown_error_iff hs]

end Shown

theorem blocks_eq (h : s.Indistinguishable s') (hs : s.Filed) (w : Walk) :
    s.blocks w = s'.blocks w := by
  rw [blocks, h.shownGroups_eq hs.instances, blocks]

theorem heading_eq (h : s.Indistinguishable s') : s.heading = s'.heading := by
  simp only [heading, h.outputEntries_eq_nil_iff]

/-- The texts begin alike; then come the lines of the outputs. -/
theorem shown_texts (h : s.Indistinguishable s') (hs : s.Filed) (hne : s.isEmpty = false)
    {schemas : Schemas} {mode : FailureStyle} {color : Markup.Treatment} {t t' : String}
    (ht : (s.shown schemas mode color).1 = .ok t)
    (ht' : (s'.shown schemas mode color).1 = .ok t') :
    ∃ front, t = finished color (front ++ s.outputLines) ∧
      t' = finished color (front ++ s'.outputLines) := by
  have hne' : s'.isEmpty = false := h.isEmpty_eq ▸ hne
  refine ⟨s.blocks (.json schemas mode) ++ s.heading, ?_, ?_⟩
  · rw [List.append_assoc]
    exact shown_of_ok hne ht
  · rw [List.append_assoc, h.blocks_eq hs, h.heading_eq]
    exact shown_of_ok hne' ht'

/-- What is listed of all outputs. -/
theorem printOutputs_eq (h : s.Indistinguishable s') (colored : Bool) :
    Command.printOutputs s none colored = Command.printOutputs s' none colored := by
  have hlines : (Entries.sorted s.outputEntries).map (fun o => Command.outputLine o.1 o.2) =
      (Entries.sorted s'.outputEntries).map fun o => Command.outputLine o.1 o.2 :=
    map_eq_of_forall₂ h.outputEntries fun _ _ _ ho => ho.line_eq
  rw [Command.printOutputs_none, Command.printOutputs_none, hlines]
  simp only [h.outputEntries_eq_nil_iff]

end State.Indistinguishable

namespace State

open Command

/-- The list of all outputs does not tell states apart that differ in sensitive values only. The
command that shows a state fails alike for both and has the same problems to report. Its texts
begin alike, and where an output is not sensitive they have the same line; but the lines of
sensitive outputs have their values. -/
theorem list_hides_sensitive {content : String} {s s' : State} (hs : parse content = .ok s)
    (h : s.Indistinguishable s') :
    (∀ colored, printOutputs s none colored = printOutputs s' none colored) ∧
      List.Forall₂
        (fun o o' => o.1 = o'.1 ∧
          (o.2.sensitive = false → Module.outputLine o = Module.outputLine o'))
        (Entries.sorted s.outputEntries) (Entries.sorted s'.outputEntries) ∧
      ∀ schemas mode colored,
        let o := showState s schemas mode colored
        let o' := showState s' schemas mode colored
        o.reports = o'.reports ∧
          ((∃ e, o = ⟨o.reports, .error e⟩ ∧ o' = o) ∨
            o.exitCode = 0 ∧ o'.exitCode = 0 ∧
              (s.isEmpty = true ∧ o' = o ∨
                s.isEmpty = false ∧ ∃ front,
                  let shown (s : State) := finished (if colored then .ansi else .strip)
                    (front ++ (Entries.sorted s.outputEntries).flatMap Module.outputLine) ++ "\n"
                  o.stdout = shown s ∧ o'.stdout = shown s')) := by
  have hfiled : s.Filed := filed_of_parse hs
  have hlines : List.Forall₂
      (fun o o' => o.1 = o'.1 ∧
        (o.2.sensitive = false → Module.outputLine o = Module.outputLine o'))
      (Entries.sorted s.outputEntries) (Entries.sorted s'.outputEntries) :=
    h.outputEntries.imp fun o o' ho => ⟨ho.name_eq, ho.shownLine_eq⟩
  refine ⟨h.printOutputs_eq, hlines, fun schemas mode colored => ?_⟩
  set color : Markup.Treatment := if colored then .ansi else .strip
  have hdiagnostics := h.shown_diagnostics_eq hfiled schemas mode color
  dsimp only
  cases hshown : (s.shown schemas mode color).1 with
  | error e =>
    have hshown' := (h.shown_error_iff hfiled schemas mode color e).1 hshown
    rw [showState_of_error colored hshown, showState_of_error colored hshown', hdiagnostics]
    exact ⟨rfl, .inl ⟨_, rfl, rfl⟩⟩
  | ok t =>
    obtain ⟨t', hshown'⟩ := (h.shown_ok_iff hfiled schemas mode color).1 ⟨t, hshown⟩
    rw [showState_of_ok colored hshown, showState_of_ok colored hshown', hdiagnostics]
    refine ⟨rfl, .inr ⟨rfl, rfl, ?_⟩⟩
    cases hempty : s.isEmpty with
    | true =>
      have hempty' : s'.isEmpty = true := h.isEmpty_eq ▸ hempty
      rw [shown_of_isEmpty hempty] at hshown
      rw [shown_of_isEmpty hempty'] at hshown'
      cases hshown
      cases hshown'
      exact .inl ⟨rfl, rfl⟩
    | false =>
      obtain ⟨front, htext, htext'⟩ := h.shown_texts hfiled hempty hshown hshown'
      exact .inr ⟨rfl, front, congrArg (· ++ "\n") htext, congrArg (· ++ "\n") htext'⟩

def secret (value : String) : String :=
  "\x7b\"modules\":[[[],[],\x7b\"token\":[\"" ++ value ++ "\",true]\x7d]]\x7d"

def shape (s : State) : List (String × List String × List (String × Bool)) :=
  s.modules.map fun m =>
    (m.1, Entries.keys m.2.resources, m.2.outputs.map fun o => (o.1, o.2.sensitive))

theorem concealed_of_shape {s : State} (hs : s.Filed)
    (h : s.shape = [("", [], [("token", true)])]) :
    s.concealed = ⟨[("", ⟨.root, [], [("token", ⟨.null, true⟩)]⟩)]⟩ := by
  obtain ⟨⟨key, path, resources, outputs⟩, hmodules, hparts⟩ := List.map_eq_singleton_iff.1 h
  simp only [Prod.mk.injEq, Entries.keys, List.map_eq_nil_iff, List.map_eq_singleton_iff] at hparts
  obtain ⟨rfl, rfl, ⟨name, value, sensitive⟩, rfl, rfl, rfl⟩ := hparts
  have hpath : path = .root :=
    ModulePath.eq_root_of_text (hs.paths _ (hmodules ▸ List.mem_cons_self))
  rw [concealed, hmodules, hpath]
  rfl

theorem exists_secret (value text : String)
    (hparts : (parse (secret value)).toOption.map shape = some [("", [], [("token", true)])])
    (htext : (parse (secret value)).toOption.map
      (fun s => (showState s ⟨[]⟩ .truncate false).stdout) = some text) :
    ∃ s, parse (secret value) = .ok s ∧
      s.concealed = ⟨[("", ⟨.root, [], [("token", ⟨.null, true⟩)]⟩)]⟩ ∧
      (showState s ⟨[]⟩ .truncate false).stdout = text := by
  obtain ⟨s, hs, hshape⟩ := exists_of_map_toOption hparts
  rw [hs] at htext
  exact ⟨s, hs, concealed_of_shape (filed_of_parse hs) hshape, Option.some.inj htext⟩

/-- Two such states with different values. -/
theorem exists_secrets :
    ∃ s s', parse (secret "a") = .ok s ∧ parse (secret "b") = .ok s' ∧ s.Indistinguishable s' ∧
      (showState s ⟨[]⟩ .truncate false).stdout = "Outputs:\n\ntoken = \"a\"\n" ∧
      (showState s' ⟨[]⟩ .truncate false).stdout = "Outputs:\n\ntoken = \"b\"\n" := by
  obtain ⟨s, hs, hconcealed, htext⟩ := exists_secret "a" "Outputs:\n\ntoken = \"a\"\n"
    (by decide +kernel) (by decide +kernel)
  obtain ⟨s', hs', hconcealed', htext'⟩ := exists_secret "b" "Outputs:\n\ntoken = \"b\"\n"
    (by decide +kernel) (by decide +kernel)
  have hresources : Entries.Reordered Resource.Reordered [] [] :=
    ⟨List.nodup_nil, _, .refl _, .nil⟩
  have houtputs : Entries.Reordered Output.Reordered [("token", ⟨.null, true⟩)]
      [("token", ⟨.null, true⟩)] :=
    ⟨List.nodup_singleton _, _, .refl _, .cons ⟨rfl, .null, rfl⟩ .nil⟩
  refine ⟨s, s', hs, hs', ?_, htext, htext'⟩
  rw [Indistinguishable, hconcealed, hconcealed']
  exact .cons ⟨rfl, rfl, hresources, houtputs⟩ .nil

theorem list_hides_sensitive_secret :
    ∃ s s', parse (secret "a") = .ok s ∧ parse (secret "b") = .ok s' ∧
      ∀ colored, printOutputs s none colored = printOutputs s' none colored := by
  obtain ⟨s, s', hs, hs', h, _⟩ := exists_secrets
  exact ⟨s, s', hs, hs', (list_hides_sensitive hs h).1⟩

/-- The text of a state has the value of a sensitive output. -/
theorem show_reveals_sensitive :
    ∃ s s', parse (secret "a") = .ok s ∧ parse (secret "b") = .ok s' ∧ s.Indistinguishable s' ∧
      (showState s ⟨[]⟩ .truncate false).stdout ≠ (showState s' ⟨[]⟩ .truncate false).stdout := by
  obtain ⟨s, s', hs, hs', h, htext, htext'⟩ := exists_secrets
  refine ⟨s, s', hs, hs', h, ?_⟩
  rw [htext, htext']
  decide

end State

end StateText
