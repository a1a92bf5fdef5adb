import StateText.Command
import StateText.Proofs.LoadedState

/-!
# Printed outputs

What the command that prints outputs does with a state file that it can read. It prints outputs of
the root module, which are those of the records with the path of the root. An output of another name
is a failure only beside outputs: without any output in the root module, the command warns and
succeeds, whatever name it is asked for.
-/

namespace StateText

namespace Entries

variable {κ α : Type} [DecidableEq κ]

theorem mem_keys_foldl_put {pairs : List (κ × α)} {es : Entries κ α} {key : κ} :
    key ∈ keys (pairs.foldl (fun es p => put p.1 p.2 es) es) ↔
      key ∈ keys es ∨ key ∈ keys pairs := by
  induction pairs generalizing es with
  | nil => simp
  | cons p pairs ih =>
    have hput : key ∈ keys (put p.1 p.2 es) ↔ key ∈ keys es ∨ key = p.1 := by
      rw [keys_put]
      split
      next hmem => exact ⟨.inl, fun h => h.elim id fun heq => heq ▸ hmem⟩
      next => simp
    rw [List.foldl_cons, ih, hput, keys_cons, List.mem_cons, or_assoc]

/-- The keys of pairs stay when all but the last of each are left out. -/
theorem mem_keys_ofPairs {pairs : List (κ × α)} {key : κ} :
    key ∈ keys (ofPairs pairs) ↔ key ∈ keys pairs := by
  rw [ofPairs, mem_keys_foldl_put, keys_nil, or_iff_right List.not_mem_nil]

end Entries

namespace State

def outputEntries (s : State) : Entries String Output := (s.root?.map Module.outputs).getD []

theorem outputEntries_of_parse {content : String} {records : List StoredModule} {s : State}
    (hrecords : parseRecords content = .ok records) (h : parse content = .ok s) :
    s.outputEntries =
      Entries.ofPairs ((StoredModule.sharing "" records).flatMap StoredModule.outputs) := by
  rw [parse_eq_ofRecords hrecords] at h
  by_cases hnil : records = []
  · subst hnil
    cases h
    rfl
  · have hmerges := (ofRecords_merges hnil).1 s h
    rw [outputEntries, root?, module?, ModulePath.text_root, hmerges.module, if_pos (.inl rfl)]
    rfl

/-- The root module has an output under a name if a record of the root has one. -/
theorem mem_outputEntries_of_parse {content : String} {records : List StoredModule} {s : State}
    (hrecords : parseRecords content = .ok records) (h : parse content = .ok s) {name : String} :
    name ∈ Entries.keys s.outputEntries ↔
      ∃ r ∈ records, r.path = .root ∧ name ∈ Entries.keys r.outputs := by
  have hroot {r : StoredModule} : r.path.text = "" ↔ r.path = .root :=
    ⟨ModulePath.eq_root_of_text, fun heq => heq ▸ rfl⟩
  rw [outputEntries_of_parse hrecords h, Entries.mem_keys_ofPairs, Entries.keys, List.map_flatMap,
    List.mem_flatMap]
  simp only [StoredModule.mem_sharing, hroot, and_assoc]
  rfl

end State

namespace Command

def valueText (o : Output) : String := String.ofList (Plain.output [] o.value.toJson)

variable {env : Environment} {args : Arguments}

/-- With settings and a state, a run that is to print outputs prints those of the state. -/
theorem run_output {path content : String} {name : Option String} {settings : Settings} {s : State}
    (haction : args.action = .output path name) (hsettings : readSettings env args = .ok settings)
    (hread : env.read path = .ok content) (hs : State.parse content = .ok s) :
    run env args =
      printOutputs s name ((args.color.getD settings.color).enabled env.terminal) := by
  have hstate : readState env path = .ok s := by
    rw [readState, hread]
    dsimp only
    rw [hs]
    rfl
  rw [run, hsettings, haction]
  dsimp only
  rw [hstate]

/-- What is printed for a name: the value that it has, or else a warning without outputs, or else
nothing but a failure. -/
theorem printOutputs_some (s : State) (name : String) (colored : Bool) :
    printOutputs s (some name) colored =
      match Entries.get? name s.outputEntries with
      | some o => ⟨[], .ok (valueText o ++ "\n")⟩
      | none =>
        if s.outputEntries = [] then ⟨[.warning colored noOutputs], .ok ""⟩
        else .fail (.unknownOutput name) := by
  unfold printOutputs State.outputEntries
  cases s.root? with
  | none => rfl
  | some root =>
    rw [Option.map_some, Option.getD_some]
    by_cases hnone : root.outputs = []
    · simp only [hnone, Entries.get?_nil, if_pos]
    · simp only [hnone, if_false]
      rfl

/-- Without a name all outputs are listed, or else there is a warning. -/
theorem printOutputs_none (s : State) (colored : Bool) :
    printOutputs s none colored =
      if s.outputEntries = [] then ⟨[.warning colored noOutputs], .ok ""⟩
      else
        ⟨[], .ok (String.join
          ((Entries.sorted s.outputEntries).map fun o => outputLine o.1 o.2))⟩ := by
  unfold printOutputs State.outputEntries
  cases s.root? <;> rfl

/-- A run that is to print one output, over a state file that describes a state, succeeds exactly if
the root module has the output or has no outputs at all. The output is then all that is printed, and
nothing is printed where it is missing. The outputs of the root module are those of its records. -/
theorem run_output_by_name {path name content : String} {settings : Settings}
    {records : List StoredModule} {s : State}
    (haction : args.action = .output path (some name))
    (hsettings : readSettings env args = .ok settings) (hread : env.read path = .ok content)
    (hrecords : State.parseRecords content = .ok records) (hs : State.parse content = .ok s) :
    (name ∈ Entries.keys s.outputEntries ↔
        ∃ r ∈ records, r.path = .root ∧ name ∈ Entries.keys r.outputs) ∧
      ((run env args).exitCode = 0 ↔
        name ∈ Entries.keys s.outputEntries ∨ s.outputEntries = []) ∧
      (∀ o, Entries.get? name s.outputEntries = some o →
        (run env args).stdout = valueText o ++ "\n" ∧ (run env args).reports = []) ∧
      (name ∉ Entries.keys s.outputEntries →
        (run env args).stdout = "" ∧
          (s.outputEntries ≠ [] → (run env args).exitCode = 1 ∧
            (run env args).result = .error (.unknownOutput name))) := by
  refine ⟨State.mem_outputEntries_of_parse hrecords hs, ?_⟩
  rw [run_output haction hsettings hread hs, printOutputs_some]
  cases hget : Entries.get? name s.outputEntries with
  | some o =>
    have hmem : name ∈ Entries.keys s.outputEntries :=
      Entries.mem_keys.2 ⟨o, Entries.mem_of_get? hget⟩
    refine ⟨⟨fun _ => .inl hmem, fun _ => rfl⟩, fun o' ho' => ?_, fun hnot => absurd hmem hnot⟩
    cases ho'
    exact ⟨rfl, rfl⟩
  | none =>
    have hmem : name ∉ Entries.keys s.outputEntries := Entries.get?_eq_none_iff.1 hget
    dsimp only
    by_cases hnone : s.outputEntries = []
    · rw [if_pos hnone]
      exact ⟨⟨fun _ => .inr hnone, fun _ => rfl⟩, fun o ho => (nomatch ho),
        fun _ => ⟨rfl, fun hne => absurd hnone hne⟩⟩
    · rw [if_neg hnone]
      refine ⟨⟨fun hexit => ?_, fun h => absurd h (not_or.2 ⟨hmem, hnone⟩)⟩,
        fun o ho => (nomatch ho), fun _ => ⟨rfl, fun _ => ⟨rfl, rfl⟩⟩⟩
      cases hexit

def Environment.ofFile (path content : String) : Environment where
  read file := if file = path then .ok content else .error .notFound
  settingsPath := none
  settingsDirectory := none
  terminal := false

def Arguments.ofOutput (path name : String) : Arguments := ⟨none, none, .output path (some name)⟩

def twoOutputs : String :=
  "\x7b\"modules\":[[[],[],\x7b\"a\":[1]\x7d],[[\"m\"],[],\x7b\"b\":[2]\x7d]]\x7d"

theorem run_output_by_name_two :
    let env := Environment.ofFile "f" twoOutputs
    (run env (.ofOutput "f" "a")).exitCode = 0 ∧ (run env (.ofOutput "f" "a")).stdout = "1\n" ∧
      (run env (.ofOutput "f" "b")).exitCode = 1 ∧ (run env (.ofOutput "f" "b")).stdout = "" := by
  intro env
  obtain ⟨records, hrecords, hs⟩ : ∃ records, State.parseRecords twoOutputs = .ok records ∧
      ((State.ofRecords records).toOption.map fun s =>
        (Entries.keys s.outputEntries, (Entries.get? "a" s.outputEntries).map valueText)) =
          some (["a"], some "1") :=
    exists_of_map_toOption (by decide +kernel)
  obtain ⟨s, hs, houtputs⟩ := exists_of_map_toOption hs
  rw [← State.parse_eq_ofRecords hrecords] at hs
  obtain ⟨hkeys, hvalue⟩ := Prod.mk.inj houtputs
  obtain ⟨o, ho, htext⟩ := Option.map_eq_some_iff.1 hvalue
  have haction (name : String) :
      (Arguments.ofOutput "f" name).action = .output "f" (some name) := rfl
  have hsettings (name : String) :
      readSettings env (.ofOutput "f" name) = .ok Settings.default := rfl
  have hread : env.read "f" = .ok twoOutputs := rfl
  obtain ⟨_, hexit, hstdout, _⟩ :=
    run_output_by_name (haction "a") (hsettings "a") hread hrecords hs
  obtain ⟨_, _, _, hmissing⟩ :=
    run_output_by_name (haction "b") (hsettings "b") hread hrecords hs
  have hb : "b" ∉ Entries.keys s.outputEntries := by rw [hkeys]; decide
  have hne : s.outputEntries ≠ [] := by
    intro hnil
    rw [hnil] at hkeys
    cases hkeys
  refine ⟨hexit.2 (.inl (by rw [hkeys]; decide)), ?_, ((hmissing hb).2 hne).1, (hmissing hb).1⟩
  rw [(hstdout o ho).1, htext]
  rfl

/-- A root module without outputs, and so without the output that is asked for. -/
theorem run_output_without_outputs :
    let content := "\x7b\"modules\":[[]]\x7d"
    ∃ s, State.parse content = .ok s ∧ "x" ∉ Entries.keys s.outputEntries ∧
      (run (.ofFile "f" content) (.ofOutput "f" "x")).exitCode = 0 := by
  intro content
  obtain ⟨s, hs, houtputs⟩ : ∃ s, State.parse content = .ok s ∧
      Entries.keys s.outputEntries = [] := exists_of_map_toOption (by decide +kernel)
  have hnone : s.outputEntries = [] := List.map_eq_nil_iff.1 houtputs
  refine ⟨s, hs, by rw [houtputs]; exact List.not_mem_nil, ?_⟩
  have haction : (Arguments.ofOutput "f" "x").action = .output "f" (some "x") := rfl
  rw [run_output haction rfl rfl hs, printOutputs_some, hnone]
  rfl

end Command

end StateText
