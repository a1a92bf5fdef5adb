import Mathlib.Tactic.SplitIfs
import StateText.Json.Reader

/-!
# Faults of a text

A reader of documents fails for the text alone: whatever is wrong, it is no misfit of a record that
someone asked for. `isMisfit_of_parse` says so of whole texts.
-/

namespace StateText.Json

def Cause.isMisfit : Cause → Bool
  | misfit _ => true
  | _ => false

/-- If this is a failure, then the text itself is at fault. -/
def Textual {α : Type} (x : Except Failure α) : Prop :=
  ∀ f, x = .error f → f.cause.isMisfit = false

namespace Textual

variable {α β : Type}

@[simp] theorem ok (a : α) : Textual (.ok a) := fun _ h => nomatch h

@[simp] theorem error_iff {f : Failure} :
    Textual (.error f : Except Failure α) ↔ f.cause.isMisfit = false :=
  ⟨fun h => h f rfl, fun h _ hf => Except.error.inj hf ▸ h⟩

@[simp] theorem map_iff {x : Except Failure α} {g : α → β} : Textual (x.map g) ↔ Textual x := by
  cases x <;> simp [Except.map]

theorem of_error {x : Except Failure α} (h : Textual x) {f : Failure} (hf : x = .error f) :
    Textual (.error f : Except Failure β) := error_iff.2 (h f hf)

end Textual

namespace Reader

attribute [local simp] Failure.here Failure.peek Failure.after Cause.isMisfit

theorem textual_word (es cs : List Char) : Textual (word es cs) := by
  fun_induction word es cs <;> simp_all

theorem textual_hexCode (cs : List Char) : Textual (hexCode cs) := by
  unfold hexCode
  split_ifs
  · simp
  · split <;> simp

theorem textual_trailingCode (cs : List Char) : Textual (trailingCode cs) := by
  unfold trailingCode
  split
  all_goals try simp
  next ds =>
    split
    next hf => exact (textual_hexCode ds).of_error hf
    · split_ifs <;> simp

theorem textual_codeEscape (cs : List Char) : Textual (codeEscape cs) := by
  unfold codeEscape
  split
  next hf => exact (textual_hexCode cs).of_error hf
  · split_ifs
    · simp
    · split
      next hf => exact (textual_trailingCode _).of_error hf
      · simp
    · simp

theorem textual_escape (cs : List Char) : Textual (escape cs) := by
  unfold escape
  split
  · simp
  · split_ifs
    · simpa using textual_codeEscape _
    · split <;> simp

theorem textual_stringBody (skip : Nat) (cs : List Char) : Textual (stringBody skip cs) := by
  fun_induction stringBody skip cs with
  | case4 cs f hf => exact (textual_escape cs).of_error hf
  | _ => simp_all

theorem textual_string (cs : List Char) : Textual (string cs) := by
  simpa [string] using textual_stringBody 0 cs

theorem textual_finishFloat (negative : Bool) (significand : Nat) (exponent : Int)
    (cs : List Char) : Textual (finishFloat negative significand exponent cs) := by
  unfold finishFloat
  split <;> simp

theorem textual_exponent (negative : Bool) (significand : Nat) (start : Int) (cs : List Char) :
    Textual (exponent negative significand start cs) := by
  unfold exponent
  dsimp only
  split
  · simp
  next c ds _ =>
    by_cases hc : c.isDigit
    · rw [if_pos hc]
      split
      · exact textual_finishFloat _ _ _ _
      · split <;> simp
    · rw [if_neg hc]
      simp

theorem textual_optionalExponent (negative : Bool) (significand : Nat) (start : Int)
    (cs : List Char) : Textual (optionalExponent negative significand start cs) := by
  unfold optionalExponent
  split
  · exact textual_finishFloat _ _ _ _
  · split_ifs
    · exact textual_exponent _ _ _ _
    · exact textual_finishFloat _ _ _ _

theorem textual_fraction (negative : Bool) (significand pending : Nat) (cs : List Char) :
    Textual (fraction negative significand pending cs) := by
  unfold fraction
  dsimp only
  split
  · simp
  · simp
  · exact textual_optionalExponent _ _ _ _

theorem textual_afterWhole (negative : Bool) (whole cs : List Char) :
    Textual (afterWhole negative whole cs) := by
  unfold afterWhole
  dsimp only
  split
  · exact textual_fraction _ _ _ _
  · split_ifs
    · split <;> simp
    · exact textual_optionalExponent _ _ _ _

theorem textual_number (negative : Bool) (cs : List Char) : Textual (number negative cs) := by
  unfold number
  split
  · simp
  · split_ifs
    · simp
    · exact textual_afterWhole _ _ _
    · exact textual_afterWhole _ _ _
    · simp

theorem textual_element {α β : Type} {element : Reader α} (h : ∀ cs, Textual (element cs))
    {more : α → List Char → Except Failure β} (hmore : ∀ a cs, Textual (more a cs))
    (cs : List Char) : Textual (match element cs with
      | .error f => .error f
      | .ok (a, rest) => more a rest) := by
  split
  next hf => exact (h cs).of_error hf
  · exact hmore _ _

theorem textual_elements {α : Type} {element : Reader α} (h : ∀ cs, Textual (element cs))
    (fuel : Nat) (first : Bool) (cs : List Char) : Textual (elements element fuel first cs) := by
  induction fuel generalizing first cs with
  | zero => simp [elements]
  | succ fuel ih =>
    have hmore (a : α) (cs : List Char) :
        Textual ((elements element fuel false cs).map fun p => (a :: p.1, p.2)) :=
      Textual.map_iff.2 (ih false cs)
    rw [elements]
    split
    · simp
    · split_ifs
      · simp
      · exact textual_element h hmore _
      · split
        · simp
        · split_ifs
          · simp
          · exact textual_element h hmore _
      · simp

theorem textual_member {σ : Type} {member : σ → String → Reader σ}
    (h : ∀ s name cs, Textual (member s name cs)) {more : σ → Reader σ}
    (hmore : ∀ s cs, Textual (more s cs)) (s : σ) (cs : List Char) :
    Textual (match string cs with
      | .error f => .error f
      | .ok (name, rest) =>
        match member s name rest with
        | .error f => .error f
        | .ok (s', rest') => more s' rest') := by
  split
  next hf => exact (textual_string cs).of_error hf
  · split
    next hf => exact (h _ _ _).of_error hf
    · exact hmore _ _

theorem textual_members {σ : Type} {member : σ → String → Reader σ}
    (h : ∀ s name cs, Textual (member s name cs)) (fuel : Nat) (first : Bool) (s : σ)
    (cs : List Char) : Textual (members member fuel first s cs) := by
  induction fuel generalizing first s cs with
  | zero => simp [members]
  | succ fuel ih =>
    rw [members]
    split
    · simp
    · split_ifs
      · simp
      · exact textual_member h (ih false) s _
      · simp
      · split
        · simp
        · split_ifs
          · exact textual_member h (ih false) s _
          · simp
          · simp
      · simp

theorem textual_colon (cs : List Char) : Textual (colon cs) := by
  unfold colon
  split
  · simp
  · split_ifs <;> simp

theorem textual_pair {α : Type} {value : Reader α} (h : ∀ cs, Textual (value cs))
    (pairs : List (String × α)) (name : String) (cs : List Char) :
    Textual (pair value pairs name cs) := by
  unfold pair
  split
  next hf => exact (textual_colon cs).of_error hf
  · simpa using h _

theorem textual_valueWith {nested : Option (Reader Json)}
    (h : ∀ reader ∈ nested, ∀ cs, Textual (reader cs)) (cs : List Char) :
    Textual (valueWith nested cs) := by
  unfold valueWith
  split
  · simp
  · split_ifs
    · simpa using textual_word _ _
    · simpa using textual_word _ _
    · simpa using textual_word _ _
    · simpa using textual_number _ _
    · simpa using textual_number _ _
    · simpa using textual_string _
    · split
      · simp
      next reader => simpa using textual_elements (h reader rfl) _ _ _
    · split
      · simp
      next reader => simpa using textual_members (textual_pair (h reader rfl)) _ _ _ _
    · simp

theorem textual_value (depth : Nat) (cs : List Char) : Textual (value depth cs) := by
  induction depth generalizing cs with
  | zero =>
    have hnone : ∀ reader ∈ (none : Option (Reader Json)), ∀ cs, Textual (reader cs) :=
      fun _ h => nomatch h
    exact textual_valueWith hnone cs
  | succ depth ih =>
    refine textual_valueWith (fun reader h => ?_) cs
    cases h
    exact ih

end Reader

/-- A text that is no document is at fault itself. -/
theorem isMisfit_of_parse {text : String} {fault : Fault} (h : parse text = .error fault) :
    fault.cause.isMisfit = false := by
  unfold parse Reader.document at h
  split at h
  next f hf =>
    cases h
    exact Reader.textual_value _ _ f hf
  · split at h
    · cases h
    · cases h
      rfl

end StateText.Json
