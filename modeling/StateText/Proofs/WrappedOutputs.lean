import StateText.Proofs.IndentedOutputs
import StateText.Proofs.PrintedOutputs

/-!
# Wrapped outputs

An output is listed as it is printed on its own, with its name in front: a scalar on the line of the
name, the lines of a collection in brackets and further to the right. `listed_output` says so of the
two texts that the command prints.
-/

namespace StateText

open Text Render

namespace Plain

variable {j : Json} {name : List Char} {items : List Json} {entries : Entries String Json}

theorem shift_commaSeparated (width : Nat) (items : List (List Char)) :
    shift width (Json.commaSeparated items) =
      Json.commaSeparated (items.map (shift width)) := by
  induction items with
  | nil => rfl
  | cons item items ih =>
    cases items with
    | nil => rfl
    | cons next items =>
      have hcomma (cs : List Char) : shift width (',' :: cs) = ',' :: shift width cs := by
        simp [shift]
      rw [Json.commaSeparated_cons_cons, shift_append, hcomma, ih]
      exact (Json.commaSeparated_cons_cons _ _ _).symm

/-- The elements of a list, under a name and without one. -/
theorem commaSeparated_elements (hne : items ≠ []) (hshown : ∀ j ∈ items, IsShown j)
    (h : ∀ j ∈ items, j.Unbroken) :
    Json.commaSeparated (items.map (element [] elementIndent)) =
      '\n' :: indented level (list [] [] items) := by
  obtain ⟨cs, _, hcs, _⟩ := indents_elements hne hshown h 0 0
  rw [spaces_zero] at hcs
  have hlist : list [] [] items = startLine (Json.commaSeparated (items.map (element [] []))) :=
    if_pos rfl
  have hmoved : items.map (element [] elementIndent) =
      (items.map (element [] [])).map (shift level) := by
    rw [List.map_map]
    refine List.map_congr_left fun j hj => ?_
    have helement := element_shift (h j hj) 0 level
    rwa [spaces_zero, Nat.zero_add] at helement
  rw [hmoved, ← shift_commaSeparated, hlist, hcs, shift_lineFeed]
  rfl

/-- What is listed under a name, beside what is printed without one. The name of a collection loses
a line feed in front. -/
def Wraps (name printed listed : List Char) : Json → Prop
  | .array [] => printed = [] ∧ listed = startLine name ++ " = []".toList
  | .object [] => printed = [] ∧ listed = startLine name ++ " = \x7b\x7d".toList
  | .array items => (∀ j ∈ items, IsShown j) →
    listed = startLine name ++ (" = [\n".toList ++ (indented 4 printed ++ "\n]".toList))
  | .object _ =>
    listed = startLine name ++ (" = \x7b\n".toList ++ (indented 2 printed ++ "\n\x7d".toList))
  | _ => listed = name ++ (" = ".toList ++ printed)

theorem wraps_output (hne : name ≠ []) (h : j.Unbroken) :
    Wraps name (output [] j) (output name j) j := by
  cases h with
  | @array items each =>
    cases items with
    | nil =>
      have hlist := list_named hne (fun _ hj => absurd hj List.not_mem_nil) 0
      exact ⟨rfl, hlist.trans (startLine_append hne _)⟩
    | cons j items =>
      intro hshown
      have helements := commaSeparated_elements (List.cons_ne_nil j items) hshown each
      have hlist : list [] name (j :: items) = startLine (name ++ (" = [".toList ++
          (Json.commaSeparated ((j :: items).map (element [] elementIndent)) ++
            "\n]".toList))) := by simp [list, hne]
      rw [output, hlist, startLine_append hne, helements]
      rfl
  | @object entries names each =>
    cases entries with
    | nil =>
      have hmap := map_named hne [] 0
      exact ⟨rfl, hmap.trans (startLine_append hne _)⟩
    | cons e entries =>
      have hmap := (map_named hne (e :: entries) 0).trans (startLine_append hne _)
      rw [bracedLines_zero (assignments_ne_nil (List.cons_ne_nil e entries))
        (lineFeed_not_mem_assignments (.object names each))] at hmap
      exact hmap
  | _ => exact if_neg hne

end Plain

namespace Command

variable {s : State} {name : String} {o : Output}

/-- Where an output stands in the list of all. -/
theorem exists_listing (ho : Entries.get? name s.outputEntries = some o) :
    ∃ before behind, Entries.sorted s.outputEntries = before ++ (name, o) :: behind ∧
      ∀ colored, (printOutputs s none colored).stdout =
        String.join (before.map fun p => outputLine p.1 p.2) ++ outputLine name o ++
          String.join (behind.map fun p => outputLine p.1 p.2) := by
  have hmem : (name, o) ∈ Entries.sorted s.outputEntries :=
    Entries.mem_sortBy.2 (Entries.mem_of_get? ho)
  obtain ⟨before, behind, hsorted⟩ := List.append_of_mem hmem
  refine ⟨before, behind, hsorted, fun colored => ?_⟩
  have houtputs : s.outputEntries ≠ [] := by
    intro hnil
    rw [hnil] at ho
    cases ho
  rw [printOutputs_none, if_neg houtputs, hsorted, List.map_append, List.map_cons]
  change String.join _ = _
  rw [String.join_append, String.join_cons, String.append_assoc]

/-- An output that is not sensitive is listed with what is printed for its name, on the line of the
name or in brackets. -/
theorem listed_output (ho : Entries.get? name s.outputEntries = some o)
    (hopen : o.sensitive = false) (hne : name ≠ "") (hv : o.value.toJson.Unbroken) :
    ∃ printed listed before behind,
      Entries.sorted s.outputEntries = before ++ (name, o) :: behind ∧
        (∀ colored, (printOutputs s (some name) colored).stdout =
          String.ofList printed ++ "\n") ∧
        (∀ colored, (printOutputs s none colored).stdout =
          String.join (before.map fun p => outputLine p.1 p.2) ++
            (String.ofList listed ++ "\n") ++
              String.join (behind.map fun p => outputLine p.1 p.2)) ∧
        Plain.Wraps name.toList printed listed o.value.toJson := by
  obtain ⟨before, behind, hsorted, hlisting⟩ := exists_listing ho
  have hline : outputLine name o =
      String.ofList (Plain.output name.toList o.value.toJson) ++ "\n" := by
    rw [outputLine, if_neg (by rw [hopen]; decide)]
  refine ⟨_, _, before, behind, hsorted, fun colored => ?_, fun colored => ?_,
    Plain.wraps_output (by simpa using hne) hv⟩
  · rw [printOutputs_some, ho]
    rfl
  · rw [hlisting, hline]

def oneOutput (name : String) (v : Value) : State := ⟨[("", ⟨.root, [], [(name, ⟨v, false⟩)]⟩)]⟩

theorem listed_output_nested :
    let v : Value := .tuple [.string "a", .list [.string "b"]]
    let s := oneOutput "x" v
    Entries.get? "x" s.outputEntries = some ⟨v, false⟩ ∧ "x" ≠ "" ∧ v.toJson.Unbroken ∧
      ∃ printed listed before behind,
        (printOutputs s (some "x") false).stdout = String.ofList printed ++ "\n" ∧
          (printOutputs s none false).stdout =
            before ++ (String.ofList listed ++ "\n") ++ behind ∧
          listed = "x = [\n".toList ++ (indented 4 printed ++ "\n]".toList) := by
  intro v s
  have hget : Entries.get? "x" s.outputEntries = some ⟨v, false⟩ := rfl
  have hunbroken : v.toJson.Unbroken := by
    refine .array ?_
    simp only [Value.itemsToJson, List.forall_mem_cons]
    refine ⟨.string (by decide), .array ?_, by simp⟩
    simpa [Value.itemsToJson, Value.toJson] using Json.Unbroken.string (s := "b") (by decide)
  obtain ⟨printed, listed, before, behind, _, hprinted, hlisted, hwraps⟩ :=
    listed_output hget rfl (by decide) hunbroken
  refine ⟨hget, by decide, hunbroken, printed, listed, _, _, hprinted false, hlisted false, ?_⟩
  exact hwraps (by simp [Value.itemsToJson, Value.toJson, Plain.IsShown])

/-- The name of a scalar is listed as it is, that of a list without its line feed. -/
theorem listed_output_loses_lineFeed :
    (printOutputs (oneOutput "\nx" (.bool true)) none false).stdout = "\nx = true\n" ∧
      (printOutputs (oneOutput "\nx" (.tuple [])) none false).stdout = "x = []\n" := by
  decide +kernel

end Command

end StateText
