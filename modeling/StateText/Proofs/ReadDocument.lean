import Mathlib.Tactic.SplitIfs
import StateText.Json.Reader

/-!
# Documents that were read

What a text is read as is put together from what its parts are read as. `Hereditary.of_parse` says
that a property which passes from parts to the whole holds of every document that was read.
-/

namespace StateText

theorem map_eq_ok {ε α β : Type} {x : Except ε α} {f : α → β} {b : β} (h : x.map f = .ok b) :
    ∃ a, x = .ok a ∧ f a = b := by
  cases x with
  | error e => cases h
  | ok a => exact ⟨a, rfl, Except.ok.inj h⟩

theorem exists_of_map_toOption {ε α β : Type} {x : Except ε α} {f : α → β} {b : β}
    (h : x.toOption.map f = some b) : ∃ a, x = .ok a ∧ f a = b := by
  cases x with
  | error e => cases h
  | ok a => exact ⟨a, rfl, Option.some.inj h⟩

namespace Json

/-- A property that a document has when its parts have it, for documents as they are read. -/
structure Hereditary (P : Json → Prop) : Prop where
  null : P null
  bool (b : Bool) : P (bool b)
  number (n : Number) : P (number n)
  string (s : String) : P (string s)
  array {items : List Json} (each : ∀ j ∈ items, P j) : P (array items)
  ofPairs {pairs : List (String × Json)} (each : ∀ p ∈ pairs, P p.2) : P (ofPairs pairs)

namespace Reader

variable {α : Type}

/-- What a list is read from: nothing, or an element and the elements behind it. -/
theorem elements_succ_eq_ok {element : Reader α} {fuel : Nat} {first : Bool} {cs rest : List Char}
    {as : List α} (h : elements element (fuel + 1) first cs = .ok (as, rest)) :
    as = [] ∨ ∃ ds a ds' bs, element ds = .ok (a, ds') ∧
      elements element fuel false ds' = .ok (bs, rest) ∧ as = a :: bs := by
  rw [elements] at h
  split at h
  next => cases h
  next c ds _ =>
    split_ifs at h
    · exact .inl (Prod.mk.inj (Except.ok.inj h)).1.symm
    · dsimp only at h
      split at h
      next => cases h
      next a ds' ha =>
        obtain ⟨⟨bs, _⟩, hbs, he⟩ := map_eq_ok h
        obtain ⟨rfl, rfl⟩ := Prod.mk.inj he
        exact .inr ⟨_, a, ds', bs, ha, hbs, rfl⟩
    · split at h
      · cases h
      · split_ifs at h
        dsimp only at h
        split at h
        next => cases h
        next a ds' ha =>
          obtain ⟨⟨bs, _⟩, hbs, he⟩ := map_eq_ok h
          obtain ⟨rfl, rfl⟩ := Prod.mk.inj he
          exact .inr ⟨_, a, ds', bs, ha, hbs, rfl⟩

theorem elements_forall {P : α → Prop} {element : Reader α}
    (h : ∀ cs a rest, element cs = .ok (a, rest) → P a) {fuel : Nat} {first : Bool}
    {cs rest : List Char} {as : List α} (hr : elements element fuel first cs = .ok (as, rest)) :
    ∀ a ∈ as, P a := by
  induction fuel generalizing first cs as with
  | zero => cases hr
  | succ fuel ih =>
    rcases elements_succ_eq_ok hr with rfl | ⟨ds, a, ds', bs, ha, hbs, rfl⟩
    · exact fun a ha => absurd ha List.not_mem_nil
    · exact List.forall_mem_cons.2 ⟨h ds a ds' ha, ih hbs⟩

/-- What the members of an object lead to: nothing new, or what a member and those behind it
lead to. -/
theorem members_succ_eq_ok {σ : Type} {member : σ → String → Reader σ} {fuel : Nat} {first : Bool}
    {s s' : σ} {cs rest : List Char}
    (h : members member (fuel + 1) first s cs = .ok (s', rest)) :
    s' = s ∨ ∃ name ds t ds', member s name ds = .ok (t, ds') ∧
      members member fuel false t ds' = .ok (s', rest) := by
  rw [members] at h
  split at h
  next => cases h
  next c ds _ =>
    split_ifs at h
    · exact .inl (Prod.mk.inj (Except.ok.inj h)).1.symm
    · dsimp only at h
      split at h
      next => cases h
      next name ds' _ =>
        split at h
        next => cases h
        next t ds'' ht => exact .inr ⟨name, ds', t, ds'', ht, h⟩
    · split at h
      · cases h
      · split_ifs at h
        dsimp only at h
        split at h
        next => cases h
        next name ds' _ =>
          split at h
          next => cases h
          next t ds'' ht => exact .inr ⟨name, ds', t, ds'', ht, h⟩

theorem members_invariant {σ : Type} {P : σ → Prop} {member : σ → String → Reader σ}
    (h : ∀ s name cs s' rest, P s → member s name cs = .ok (s', rest) → P s') {fuel : Nat}
    {first : Bool} {s s' : σ} {cs rest : List Char} (hs : P s)
    (hr : members member fuel first s cs = .ok (s', rest)) : P s' := by
  induction fuel generalizing first s cs with
  | zero => cases hr
  | succ fuel ih =>
    rcases members_succ_eq_ok hr with rfl | ⟨name, ds, t, ds', ht, hrest⟩
    · exact hs
    · exact ih (h s name ds t ds' hs ht) hrest

inductive Composed (nested : Option (Reader Json)) : Json → Prop
  | null : Composed nested .null
  | bool (b : Bool) : Composed nested (.bool b)
  | number (n : Number) : Composed nested (.number n)
  | string (s : String) : Composed nested (.string s)
  | array {reader : Reader Json} {items : List Json} (hn : nested = some reader)
      (each : ∀ j ∈ items, ∃ cs rest, reader cs = .ok (j, rest)) : Composed nested (.array items)
  | ofPairs {reader : Reader Json} {pairs : List (String × Json)} (hn : nested = some reader)
      (each : ∀ p ∈ pairs, ∃ cs rest, reader cs = .ok (p.2, rest)) :
      Composed nested (Json.ofPairs pairs)

theorem pairs_of_members {reader : Reader Json} {fuel : Nat} {first : Bool} {cs rest : List Char}
    {pairs : List (String × Json)}
    (h : members (pair reader) fuel first [] cs = .ok (pairs, rest)) :
    ∀ p ∈ pairs, ∃ cs rest, reader cs = .ok (p.2, rest) := by
  have hpair : ∀ (pairs : List (String × Json)) name cs pairs' rest,
      (∀ p ∈ pairs, ∃ cs rest, reader cs = .ok (p.2, rest)) →
      pair reader pairs name cs = .ok (pairs', rest) →
      ∀ p ∈ pairs', ∃ cs rest, reader cs = .ok (p.2, rest) := by
    intro pairs name cs pairs' rest hall hp
    rw [pair] at hp
    split at hp
    · cases hp
    · obtain ⟨⟨j, _⟩, hj, he⟩ := map_eq_ok hp
      rw [← (Prod.mk.inj he).1]
      exact List.forall_mem_cons.2 ⟨⟨_, _, hj⟩, hall⟩
  exact members_invariant hpair (fun p hp => absurd hp List.not_mem_nil) h

theorem composed_of_valueWith {nested : Option (Reader Json)} {cs rest : List Char} {j : Json}
    (h : valueWith nested cs = .ok (j, rest)) : Composed nested j := by
  rw [valueWith] at h
  split at h
  · cases h
  · split_ifs at h
    · obtain ⟨_, _, he⟩ := map_eq_ok h
      exact (Prod.mk.inj he).1 ▸ .null
    · obtain ⟨_, _, he⟩ := map_eq_ok h
      exact (Prod.mk.inj he).1 ▸ .bool true
    · obtain ⟨_, _, he⟩ := map_eq_ok h
      exact (Prod.mk.inj he).1 ▸ .bool false
    · obtain ⟨⟨n, _⟩, _, he⟩ := map_eq_ok h
      exact (Prod.mk.inj he).1 ▸ .number n
    · obtain ⟨⟨n, _⟩, _, he⟩ := map_eq_ok h
      exact (Prod.mk.inj he).1 ▸ .number n
    · obtain ⟨⟨s, _⟩, _, he⟩ := map_eq_ok h
      exact (Prod.mk.inj he).1 ▸ .string s
    · split at h
      · cases h
      next reader =>
        obtain ⟨⟨items, _⟩, hitems, he⟩ := map_eq_ok h
        exact (Prod.mk.inj he).1 ▸
          .array rfl (elements_forall (fun cs _ rest hj => ⟨cs, rest, hj⟩) hitems)
    · split at h
      · cases h
      next reader =>
        obtain ⟨⟨pairs, _⟩, hpairs, he⟩ := map_eq_ok h
        exact (Prod.mk.inj he).1 ▸
          .ofPairs rfl fun p hp => pairs_of_members hpairs p (List.mem_reverse.1 hp)

theorem value_of_parse {text : String} {j : Json} (h : parse text = .ok j) :
    ∃ rest, value depthLimit text.toList = .ok (j, rest) := by
  rw [parse, document] at h
  split at h
  · cases h
  next a rest hv =>
    split at h
    · exact ⟨rest, Except.ok.inj h ▸ hv⟩
    · cases h

end Reader

namespace Hereditary

variable {P : Json → Prop}

theorem of_valueWith (hP : Hereditary P) (nested : Option (Reader Json))
    (h : ∀ reader ∈ nested, ∀ cs j rest, reader cs = .ok (j, rest) → P j)
    {cs rest : List Char} {j : Json} (hr : Reader.valueWith nested cs = .ok (j, rest)) : P j := by
  cases Reader.composed_of_valueWith hr with
  | null => exact hP.null
  | bool b => exact hP.bool b
  | number n => exact hP.number n
  | string s => exact hP.string s
  | array hn each =>
    refine hP.array fun j hj => ?_
    obtain ⟨cs, rest, hread⟩ := each j hj
    exact h _ hn cs j rest hread
  | ofPairs hn each =>
    refine hP.ofPairs fun p hp => ?_
    obtain ⟨cs, rest, hread⟩ := each p hp
    exact h _ hn cs p.2 rest hread

theorem of_value (hP : Hereditary P) {depth : Nat} {cs rest : List Char} {j : Json}
    (h : Reader.value depth cs = .ok (j, rest)) : P j := by
  induction depth generalizing cs rest j with
  | zero => exact hP.of_valueWith none (fun _ hn => nomatch hn) h
  | succ depth ih =>
    refine hP.of_valueWith (some (Reader.value depth)) ?_ h
    intro reader hn cs j rest hr
    cases hn
    exact ih hr

theorem of_parse (hP : Hereditary P) {text : String} {j : Json} (h : parse text = .ok j) : P j := by
  obtain ⟨_, hv⟩ := Reader.value_of_parse h
  exact hP.of_value hv

end Hereditary

end Json

end StateText
