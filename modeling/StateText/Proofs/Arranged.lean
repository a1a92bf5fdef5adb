import StateText.Proofs.IterationOrder
import StateText.Proofs.PrintedOutputs

/-!
# Arranged states

A state is shown with its instances in the order of their keys, so that the order in which they are
held does not matter. What is shown are the instances module by module, and behind them a line for
each output of the root module.
-/

namespace StateText

theorem Entries.get?_map_values {κ α β : Type} [DecidableEq κ] (key : κ) (f : κ → α → β)
    (es : Entries κ α) : get? key (es.map fun e => (e.1, f e.1 e.2)) =
      (get? key es).map (f key) := by
  induction es with
  | nil => rfl
  | cons e es ih =>
    rw [List.map_cons, get?_cons, get?_cons, ih]
    split_ifs with hkey
    · rw [hkey]
      rfl
    · rfl

/-- Arranged, instances stand in one order only. -/
theorem Resource.Reordered.arranged_eq {r r' : Resource} (h : r.Reordered r')
    (hn : (Entries.keys r.instances).Nodup) : r.arranged = r'.arranged := by
  have hinstances : r.sortedInstances = r'.sortedInstances :=
    Entries.sortBy_eq_of_perm InstanceKey.le_total InstanceKey.le_trans InstanceKey.le_antisymm
      h.instances hn
  rw [arranged, arranged, hinstances, h.address_eq, h.provider_eq]

namespace Module

theorem sortedResources_arranged (m : Module) :
    m.arranged.sortedResources = m.sortedResources.map Resource.arranged := by
  have hsorted : Entries.sorted m.arranged.resources =
      (Entries.sorted m.resources).map fun r => (r.1, r.2.arranged) :=
    Entries.sortBy_map _ _ _
  rw [sortedResources, hsorted, sortedResources, List.map_map, List.map_map]
  rfl

theorem Reordered.located_arranged {m m' : Module} (h : m.Reordered m')
    (hm : ∀ r ∈ m.resources, (Entries.keys r.2.instances).Nodup) :
    m.arranged.located = m'.arranged.located := by
  have hresources : m.sortedResources.map Resource.arranged =
      m'.sortedResources.map Resource.arranged := by
    rw [sortedResources, sortedResources, List.map_map, List.map_map]
    refine map_eq_of_forall₂ h.resources.sorted fun r hr r' hrr' => ?_
    exact hrr'.2.arranged_eq (hm r (Entries.mem_sortBy.1 hr))
  rw [located, located, sortedResources_arranged, sortedResources_arranged, hresources]
  change List.flatMap (Resource.located m.path) _ = List.flatMap (Resource.located m'.path) _
  rw [h.path_eq]

end Module

namespace State

def shownGroups (s : State) : List (List Located) := s.arranged.moduleList.map Module.located

theorem shownGroups_eq_map (s : State) :
    s.shownGroups = s.modules.map fun m => m.2.arranged.located := by
  rw [shownGroups, moduleList, arranged, List.map_map, List.map_map]
  rfl

theorem flatten_shownGroups (s : State) : s.shownGroups.flatten = s.arranged.located := by
  rw [shownGroups, located, List.flatMap_def]

theorem Reordered.shownGroups_eq {s s' : State} (h : s.Reordered s')
    (hs : ∀ m ∈ s.modules, ∀ r ∈ m.2.resources, (Entries.keys r.2.instances).Nodup) :
    s.shownGroups = s'.shownGroups := by
  rw [shownGroups_eq_map, shownGroups_eq_map]
  exact map_eq_of_forall₂ h fun m hm m' hmm' => hmm'.2.located_arranged (hs m hm)

def blocks (w : Walk) (s : State) : List Char :=
  Markup.Code.reset.token ++
    s.shownGroups.flatMap fun ls => ls.flatMap (Located.chars w) ++ resetLine

def heading (s : State) : List Char :=
  if s.outputEntries = [] then [] else "\nOutputs:\n\n".toList

def outputLines (s : State) : List Char :=
  (Entries.sorted s.outputEntries).flatMap Module.outputLine

theorem outputChars_arranged (s : State) :
    s.arranged.outputChars = s.heading ++ s.outputLines := by
  have hget : Entries.get? ModulePath.root.text s.arranged.modules =
      (Entries.get? ModulePath.root.text s.modules).map Module.arranged :=
    Entries.get?_map_values _ (fun _ => Module.arranged) _
  rw [outputChars, heading, outputLines, outputEntries, root?, root?, module?, module?, hget]
  cases Entries.get? ModulePath.root.text s.modules with
  | none => rfl
  | some root =>
    change root.outputChars = _
    rw [Module.outputChars, Option.map_some, Option.getD_some]
    split_ifs with hnone
    · rw [hnone]
      rfl
    · rfl

theorem text_arranged (w : Walk) (s : State) :
    s.arranged.text w = s.blocks w ++ (s.heading ++ s.outputLines) := by
  rw [text, outputChars_arranged, blocks, shownGroups, List.flatMap_map]
  rfl

theorem isEmpty_of_outputEntries {s : State} (h : s.outputEntries ≠ []) : s.isEmpty = false := by
  cases hmodules : s.modules with
  | nil => exact absurd (by rw [outputEntries, root?, module?, hmodules]; rfl) h
  | cons m ms => rw [isEmpty, hmodules, List.isEmpty_cons]

/-- What is shown of a text: its ends are trimmed before its markup is resolved and after. -/
def finished (color : Markup.Treatment) (cs : List Char) : String :=
  String.ofList (Text.trim (color.apply (Text.trim cs)))

theorem isEmpty_arranged (s : State) : s.arranged.isEmpty = s.isEmpty := List.isEmpty_map

theorem shown_of_isEmpty {s : State} (h : s.isEmpty = true) (schemas : Schemas)
    (mode : FailureStyle) (color : Markup.Treatment) :
    s.shown schemas mode color = (.ok emptyMessage, []) :=
  format_of_isEmpty color.apply (s.isEmpty_arranged.trans h)

/-- A state with modules whose text is not stopped. -/
theorem shown_of_ok {s : State} {schemas : Schemas} {mode : FailureStyle}
    {color : Markup.Treatment} {t : String} (hne : s.isEmpty = false)
    (h : (s.shown schemas mode color).1 = .ok t) :
    t = finished color (s.blocks (.json schemas mode) ++ (s.heading ++ s.outputLines)) := by
  have hne' : s.arranged.isEmpty = false := s.isEmpty_arranged.trans hne
  have hcomplete := complete_of_format_eq_ok color.apply h
  rw [shown, format_of_complete color.apply hne' hcomplete, text_arranged] at h
  exact (Except.ok.inj h).symm

end State

namespace Command

variable {s : State} {schemas : Schemas} {mode : FailureStyle} (colored : Bool)

theorem showState_of_ok {text : String}
    (h : (s.shown schemas mode (if colored then .ansi else .strip)).1 = .ok text) :
    showState s schemas mode colored =
      ⟨(s.shown schemas mode (if colored then .ansi else .strip)).2.map (.diagnostic colored),
        .ok (text ++ "\n")⟩ := by
  unfold showState
  dsimp only
  rw [h]

theorem showState_of_error {e : MissingSchema}
    (h : (s.shown schemas mode (if colored then .ansi else .strip)).1 = .error e) :
    showState s schemas mode colored =
      ⟨(s.shown schemas mode (if colored then .ansi else .strip)).2.map (.diagnostic colored),
        .error (.missingSchema e)⟩ := by
  unfold showState
  dsimp only
  rw [h]

end Command

end StateText
