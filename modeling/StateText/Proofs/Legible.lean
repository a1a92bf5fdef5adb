import StateText.Proofs.AddressText
import StateText.Proofs.ValueReader

/-!
# Legible text

A way of writing is legible when the front of a text tells what was written there, whatever
follows. Legible parts one behind the other are legible up to the first character that starts
none of them.
-/

namespace StateText

/-- Equal texts that start with what is written have the same meanings and the same rests. -/
def Legible {α β : Type} (valid : α → Prop) (write : α → List Char) (meaning : α → β) : Prop :=
  ∀ ⦃a b : α⦄ ⦃t u : List Char⦄, valid a → valid b → write a ++ t = write b ++ u →
    meaning a = meaning b ∧ t = u

theorem Legible.flatMap {α β : Type} {valid : α → Prop} {write : α → List Char} {meaning : α → β}
    (h : Legible valid write meaning) (starts : Char → Prop)
    (hs : ∀ a, valid a → ∃ c cs, write a = c :: cs ∧ starts c) {as bs : List α}
    (ha : ∀ a ∈ as, valid a) (hb : ∀ b ∈ bs, valid b) {t u : List Char}
    (ht : ∀ c ∈ t.head?, ¬ starts c) (hu : ∀ c ∈ u.head?, ¬ starts c)
    (he : as.flatMap write ++ t = bs.flatMap write ++ u) :
    as.map meaning = bs.map meaning ∧ t = u := by
  induction as generalizing bs with
  | nil =>
    cases bs with
    | nil => exact ⟨rfl, he⟩
    | cons b bs =>
      obtain ⟨c, cs, hc, hstart⟩ := hs b (hb b List.mem_cons_self)
      rw [List.flatMap_nil, List.nil_append, List.flatMap_cons, hc] at he
      exact absurd hstart (ht c (by rw [he]; rfl))
  | cons a as ih =>
    obtain ⟨hav, has⟩ := List.forall_mem_cons.1 ha
    cases bs with
    | nil =>
      obtain ⟨c, cs, hc, hstart⟩ := hs a hav
      rw [List.flatMap_nil, List.nil_append, List.flatMap_cons, hc] at he
      exact absurd hstart (hu c (by rw [← he]; rfl))
    | cons b bs =>
      obtain ⟨hbv, hbs⟩ := List.forall_mem_cons.1 hb
      rw [List.flatMap_cons, List.flatMap_cons, List.append_assoc, List.append_assoc] at he
      obtain ⟨hmeaning, hrest⟩ := h hav hbv he
      obtain ⟨hmap, htu⟩ := ih has hbs hrest
      exact ⟨by rw [List.map_cons, List.map_cons, hmeaning, hmap], htu⟩

/-- What stands before the first character of a kind. -/
theorem append_cons_injective {d : Char} {xs ys t u : List Char} (hx : ∀ c ∈ xs, c ≠ d)
    (hy : ∀ c ∈ ys, c ≠ d) (h : xs ++ d :: t = ys ++ d :: u) : xs = ys ∧ t = u := by
  induction xs generalizing ys with
  | nil =>
    cases ys with
    | nil => exact ⟨rfl, (List.cons.inj h).2⟩
    | cons y ys => exact absurd (List.cons.inj h).1.symm (hy y List.mem_cons_self)
  | cons x xs ih =>
    cases ys with
    | nil => exact absurd (List.cons.inj h).1 (hx x List.mem_cons_self)
    | cons y ys =>
      obtain ⟨hxy, hrest⟩ := List.cons.inj h
      obtain ⟨hxs, htu⟩ := ih (List.forall_mem_cons.1 hx).2 (List.forall_mem_cons.1 hy).2 hrest
      exact ⟨by rw [hxy, hxs], htu⟩

/-! ### Lines -/

def valueLine (indent : Nat) (e : String × Value) : List Char :=
  e.1.toList ++ ' ' :: '=' :: ' ' :: (e.2.chars indent ++ ['\n'])

theorem legible_valueLine (indent : Nat) :
    Legible (fun e => IsIdentifier e.1) (valueLine indent) fun e => (e.1, e.2.normal) := by
  intro d e t u hd he h
  simp only [valueLine, List.append_assoc, List.cons_append] at h
  obtain ⟨hname, hrest⟩ := append_cons_injective (fun c hc => hd.ne_of_mem hc (by decide))
    (fun c hc => he.ne_of_mem hc (by decide)) h
  have hvalue : d.2.chars indent ++ '\n' :: t = e.2.chars indent ++ '\n' :: u :=
    (List.cons.inj (List.cons.inj hrest).2).2
  have hread := d.2.read_chars indent (Normal.follows_lineFeed t)
  rw [hvalue, e.2.read_chars indent (Normal.follows_lineFeed u)] at hread
  obtain ⟨hnormal, hlines⟩ := Prod.mk.inj (Option.some.inj hread)
  exact ⟨Prod.ext (String.toList_injective hname) hnormal.symm, (List.cons.inj hlines).2.symm⟩

/-! ### Headers -/

structure ResourceAddress.IsNamed (a : ResourceAddress) : Prop where
  known : a.mode.isKnown = true
  type : IsIdentifier a.type
  name : IsIdentifier a.name

theorem ResourceAddress.IsNamed.isPlain {a : ResourceAddress} (h : a.IsNamed) : a.IsPlain where
  mode := by
    have hknown := h.known
    cases hm : a.mode with
    | managed => exact IsIdentifier.isSegment rfl
    | data => exact IsIdentifier.isSegment rfl
    | unknown word =>
      rw [hm] at hknown
      cases hknown
  type := h.type.isSegment
  name := h.name.isSegment
  read := by
    have hknown := h.known
    cases hm : a.mode with
    | managed => rfl
    | data => rfl
    | unknown word =>
      rw [hm] at hknown
      cases hknown

theorem ne_lineFeed_of_mem_address {path : ModulePath} {resource : ResourceAddress}
    (hsteps : ∀ step ∈ path.steps, IsIdentifier step) (h : resource.IsNamed) (key : InstanceKey) :
    ∀ c ∈ (instanceAddress path resource key).toList, c ≠ '\n' := by
  have hidentifier {name : String} (h : IsIdentifier name) : '\n' ∉ name.toList :=
    fun hc => h.ne_of_mem hc (by decide) rfl
  have hword : '\n' ∉ resource.mode.word.toList := by
    have hknown := h.known
    cases hm : resource.mode with
    | managed => decide
    | data => decide
    | unknown word =>
      rw [hm] at hknown
      cases hknown
  have hline := lineFeed_not_mem_instanceAddress (fun step hs => hidentifier (hsteps step hs))
    ⟨hword, hidentifier h.type, hidentifier h.name⟩ key
  exact fun c hc hfeed => hline (hfeed ▸ hc)

def headerLine (address : String) (tainted : Bool) : List Char :=
  address.toList ++ ':' :: ' ' :: (if tainted then "(tainted)".toList else [])

theorem ne_lineFeed_of_mem_headerLine {address : String} (h : ∀ c ∈ address.toList, c ≠ '\n')
    (tainted : Bool) : ∀ c ∈ headerLine address tainted, c ≠ '\n' := by
  have hend :
      (':' :: ' ' :: if tainted then "(tainted)".toList else []).all (· != '\n') = true := by
    cases tainted <;> rfl
  intro c hc
  rcases List.mem_append.1 hc with hc | hc
  · exact h c hc
  · simpa using List.all_eq_true.1 hend c hc

theorem getLast?_headerLine (address : String) (tainted : Bool) :
    (headerLine address tainted).getLast? = some (if tainted then ')' else ' ') := by
  cases tainted <;> simp [headerLine]

theorem headerLine_injective {address address' : String} {tainted tainted' : Bool}
    (h : headerLine address tainted = headerLine address' tainted') :
    address = address' ∧ tainted = tainted' := by
  have htainted : tainted = tainted' := by
    have heq := getLast?_headerLine address tainted
    rw [h, getLast?_headerLine] at heq
    cases tainted <;> cases tainted' <;> simp_all
  subst htainted
  exact ⟨String.toList_injective (List.append_cancel_right h), rfl⟩

end StateText
