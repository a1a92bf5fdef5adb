/-!
# Keyed entries

A collection of entries with keys of any type, and its listing in key order. Two entries with one
key never both count: `put` replaces, and `get?` finds the first.
-/

namespace StateText

abbrev Entries (κ α : Type) := List (κ × α)

namespace Entries

variable {κ α β : Type}

def keys (es : Entries κ α) : List κ := es.map Prod.fst

@[simp] theorem keys_nil : keys ([] : Entries κ α) = [] := rfl

@[simp] theorem keys_cons (e : κ × α) (es : Entries κ α) : keys (e :: es) = e.1 :: keys es := rfl

theorem mem_keys {key : κ} {es : Entries κ α} : key ∈ keys es ↔ ∃ v, (key, v) ∈ es := by
  rw [keys, List.mem_map]
  constructor
  · rintro ⟨⟨k, v⟩, he, rfl⟩
    exact ⟨v, he⟩
  · rintro ⟨v, he⟩
    exact ⟨(key, v), he, rfl⟩

section Lookup

variable [DecidableEq κ]

def get? (key : κ) : Entries κ α → Option α
  | [] => none
  | (k, v) :: es => if k = key then some v else get? key es

@[simp] theorem get?_nil (key : κ) : get? key ([] : Entries κ α) = none := rfl

theorem get?_cons (key k : κ) (v : α) (es : Entries κ α) :
    get? key ((k, v) :: es) = if k = key then some v else get? key es := rfl

theorem get?_eq_none_iff {key : κ} {es : Entries κ α} : get? key es = none ↔ key ∉ keys es := by
  induction es with
  | nil => simp
  | cons e es ih => by_cases h : e.1 = key <;> simp_all [get?, eq_comm]

theorem mem_of_get? {key : κ} {v : α} {es : Entries κ α} (h : get? key es = some v) :
    (key, v) ∈ es := by
  induction es with
  | nil => cases h
  | cons e es ih =>
    obtain ⟨k, a⟩ := e
    by_cases hk : k = key
    · rw [get?_cons, if_pos hk] at h
      rw [← hk, ← Option.some.inj h]
      exact List.mem_cons_self
    · rw [get?_cons, if_neg hk] at h
      exact List.mem_cons_of_mem _ (ih h)

/-- The new value takes the place of an old one under its key, or else comes last. -/
def put (key : κ) (value : α) : Entries κ α → Entries κ α
  | [] => [(key, value)]
  | (k, v) :: es => if k = key then (key, value) :: es else (k, v) :: put key value es

@[simp] theorem put_nil (key : κ) (value : α) : put key value [] = [(key, value)] := rfl

theorem put_cons (key k : κ) (value v : α) (es : Entries κ α) :
    put key value ((k, v) :: es) =
      if k = key then (key, value) :: es else (k, v) :: put key value es := rfl

theorem get?_put (key key' : κ) (value : α) (es : Entries κ α) :
    get? key' (put key value es) = if key = key' then some value else get? key' es := by
  induction es with
  | nil => rfl
  | cons e es ih =>
    obtain ⟨k, v⟩ := e
    by_cases h : k = key
    · subst h
      by_cases h' : k = key' <;> simp [put, get?, h']
    · by_cases h' : k = key'
      · subst h'
        simp [put, get?, h, Ne.symm h]
      · simp [put, get?, h, h', ih]

theorem keys_put (key : κ) (value : α) (es : Entries κ α) :
    keys (put key value es) = if key ∈ keys es then keys es else keys es ++ [key] := by
  induction es with
  | nil => simp
  | cons e es ih =>
    obtain ⟨k, v⟩ := e
    by_cases h : k = key
    · simp [put, h]
    · by_cases h' : key ∈ keys es <;> simp [put, h, Ne.symm h, ih, h']

theorem put_eq_append {key : κ} {es : Entries κ α} (h : key ∉ keys es) (value : α) :
    put key value es = es ++ [(key, value)] := by
  induction es with
  | nil => rfl
  | cons e es ih =>
    obtain ⟨hne, hrest⟩ := not_or.1 (mt List.mem_cons.2 h)
    rw [put_cons, if_neg (Ne.symm hne), ih hrest, List.cons_append]

/-- Of several values under one key the last one stays. -/
def ofPairs (pairs : List (κ × α)) : Entries κ α :=
  pairs.foldl (fun es p => put p.1 p.2 es) []

@[simp] theorem ofPairs_nil : ofPairs ([] : List (κ × α)) = [] := rfl

theorem ofPairs_eq_self {pairs : List (κ × α)} (h : (keys pairs).Nodup) :
    ofPairs pairs = pairs := by
  have hput : ∀ es : Entries κ α, (keys (es ++ pairs)).Nodup →
      pairs.foldl (fun es p => put p.1 p.2 es) es = es ++ pairs := by
    clear h
    induction pairs with
    | nil => simp
    | cons p pairs ih =>
      intro es hes
      have hp : p.1 ∉ keys es := by
        intro hmem
        rw [keys, List.map_append, List.nodup_append] at hes
        exact hes.2.2 _ hmem _ List.mem_cons_self rfl
      rw [List.foldl_cons, put_eq_append hp, ih, List.append_assoc, List.singleton_append]
      rwa [List.append_assoc, List.singleton_append]
  exact hput [] h

def erase (key : κ) (es : Entries κ α) : Entries κ α := es.filter fun e => e.1 ≠ key

end Lookup

section Order

/-- Where the relation puts the entry: before the first one that it may precede. -/
def insertBy (le : κ → κ → Bool) (e : κ × α) : Entries κ α → Entries κ α
  | [] => [e]
  | d :: es => if le e.1 d.1 then e :: d :: es else d :: insertBy le e es

def sortBy (le : κ → κ → Bool) : Entries κ α → Entries κ α
  | [] => []
  | e :: es => insertBy le e (sortBy le es)

theorem insertBy_perm (le : κ → κ → Bool) (e : κ × α) (es : Entries κ α) :
    (insertBy le e es).Perm (e :: es) := by
  induction es with
  | nil => exact List.Perm.refl _
  | cons d es ih =>
    rw [insertBy]
    split
    · exact List.Perm.refl _
    · exact (ih.cons d).trans (List.Perm.swap e d es)

theorem sortBy_perm (le : κ → κ → Bool) (es : Entries κ α) : (sortBy le es).Perm es := by
  induction es with
  | nil => exact List.Perm.refl _
  | cons e es ih => exact (insertBy_perm le e _).trans (ih.cons e)

@[simp] theorem length_sortBy (le : κ → κ → Bool) (es : Entries κ α) :
    (sortBy le es).length = es.length := (sortBy_perm le es).length_eq

@[simp] theorem mem_sortBy {le : κ → κ → Bool} {es : Entries κ α} {e : κ × α} :
    e ∈ sortBy le es ↔ e ∈ es := (sortBy_perm le es).mem_iff

theorem insertBy_pairwise {le : κ → κ → Bool} (total : ∀ a b, le a b ∨ le b a)
    (trans : ∀ a b c, le a b → le b c → le a c) (e : κ × α) {es : Entries κ α}
    (h : es.Pairwise fun a b => le a.1 b.1) :
    (insertBy le e es).Pairwise fun a b => le a.1 b.1 := by
  induction es with
  | nil => simp [insertBy]
  | cons d es ih =>
    obtain ⟨hd, hes⟩ := List.pairwise_cons.1 h
    rw [insertBy]
    split
    next hle =>
      refine List.pairwise_cons.2 ⟨?_, h⟩
      intro a ha
      rcases List.mem_cons.1 ha with rfl | ha
      · exact hle
      · exact trans _ _ _ hle (hd a ha)
    next hle =>
      refine List.pairwise_cons.2 ⟨?_, ih hes⟩
      intro a ha
      rcases List.mem_cons.1 ((insertBy_perm le e es).mem_iff.1 ha) with rfl | ha
      · exact (total _ _).resolve_left hle
      · exact hd a ha

theorem sortBy_pairwise {le : κ → κ → Bool} (total : ∀ a b, le a b ∨ le b a)
    (trans : ∀ a b c, le a b → le b c → le a c) (es : Entries κ α) :
    (sortBy le es).Pairwise fun a b => le a.1 b.1 := by
  induction es with
  | nil => exact .nil
  | cons e es ih => exact insertBy_pairwise total trans e ih

theorem eq_of_mem_of_nodup {es : Entries κ α} (h : (keys es).Nodup) {a b : κ × α} (ha : a ∈ es)
    (hb : b ∈ es) (hab : a.1 = b.1) : a = b := by
  induction es with
  | nil => cases ha
  | cons e es ih =>
    obtain ⟨he, hes⟩ := List.nodup_cons.1 h
    rw [List.mem_cons] at ha hb
    rcases ha with rfl | ha <;> rcases hb with rfl | hb
    · rfl
    · exact absurd (List.mem_map.2 ⟨b, hb, hab.symm⟩) he
    · exact absurd (List.mem_map.2 ⟨a, ha, hab⟩) he
    · exact ih hes ha hb

theorem get?_eq_some_iff [DecidableEq κ] {es : Entries κ α} (hn : (keys es).Nodup) {key : κ}
    {v : α} : get? key es = some v ↔ (key, v) ∈ es := by
  refine ⟨mem_of_get?, fun hmem => ?_⟩
  cases h : get? key es with
  | none => exact absurd (mem_keys.2 ⟨v, hmem⟩) (get?_eq_none_iff.1 h)
  | some v' =>
    have heq : (key, v') = (key, v) := eq_of_mem_of_nodup hn (mem_of_get? h) hmem rfl
    rw [(Prod.mk.inj heq).2]

/-- The listing of entries with different keys does not depend on their order. -/
theorem sortBy_eq_of_perm {le : κ → κ → Bool} (total : ∀ a b, le a b ∨ le b a)
    (trans : ∀ a b c, le a b → le b c → le a c) (antisymm : ∀ a b, le a b → le b a → a = b)
    {es ds : Entries κ α} (h : es.Perm ds) (hes : (keys es).Nodup) :
    sortBy le es = sortBy le ds := by
  have hp : (sortBy le es).Perm (sortBy le ds) :=
    (sortBy_perm le es).trans (h.trans (sortBy_perm le ds).symm)
  refine List.Perm.eq_of_pairwise ?_ (sortBy_pairwise total trans es)
    (sortBy_pairwise total trans ds) hp
  intro a b ha hb hab hba
  have hb' : b ∈ es := h.mem_iff.2 (mem_sortBy.1 hb)
  exact eq_of_mem_of_nodup hes (mem_sortBy.1 ha) hb' (antisymm _ _ hab hba)

theorem insertBy_eq_cons {le : κ → κ → Bool} {e : κ × α} {es : Entries κ α}
    (h : ∀ d ∈ es, le e.1 d.1) : insertBy le e es = e :: es := by
  cases es with
  | nil => rfl
  | cons d es => rw [insertBy, if_pos (h d List.mem_cons_self)]

theorem sortBy_eq_self {le : κ → κ → Bool} {es : Entries κ α}
    (h : es.Pairwise fun a b => le a.1 b.1) : sortBy le es = es := by
  induction es with
  | nil => rfl
  | cons e es ih =>
    obtain ⟨he, hes⟩ := List.pairwise_cons.1 h
    rw [sortBy, ih hes, insertBy_eq_cons he]

theorem filter_insertBy {le : κ → κ → Bool} (trans : ∀ a b c, le a b → le b c → le a c)
    {p : κ × α → Bool} {e : κ × α} (he : p e = true) {es : Entries κ α}
    (h : es.Pairwise fun a b => le a.1 b.1) :
    (insertBy le e es).filter p = insertBy le e (es.filter p) := by
  induction es with
  | nil => rw [insertBy, List.filter_cons_of_pos he, List.filter_nil, insertBy]
  | cons d es ih =>
    obtain ⟨hd, hes⟩ := List.pairwise_cons.1 h
    by_cases hle : le e.1 d.1 = true
    · have hall : ∀ x ∈ d :: es, le e.1 x.1 = true := by
        intro x hx
        rcases List.mem_cons.1 hx with rfl | hx
        · exact hle
        · exact trans _ _ _ hle (hd x hx)
      rw [insertBy_eq_cons hall, List.filter_cons_of_pos he,
        insertBy_eq_cons fun x hx => hall x (List.mem_filter.1 hx).1]
    · rw [insertBy, if_neg hle]
      by_cases hp : p d = true
      · rw [List.filter_cons_of_pos hp, List.filter_cons_of_pos hp, ih hes, insertBy, if_neg hle]
      · rw [List.filter_cons_of_neg hp, List.filter_cons_of_neg hp, ih hes]

theorem filter_insertBy_of_neg (le : κ → κ → Bool) {p : κ × α → Bool} {e : κ × α} (he : ¬ p e)
    (es : Entries κ α) : (insertBy le e es).filter p = es.filter p := by
  induction es with
  | nil => rw [insertBy, List.filter_cons_of_neg he]
  | cons d es ih =>
    rw [insertBy]
    split
    · rw [List.filter_cons_of_neg he]
    · rw [List.filter_cons, List.filter_cons, ih]

/-- Entries may be left out before they are listed or after. -/
theorem sortBy_filter {le : κ → κ → Bool} (total : ∀ a b, le a b ∨ le b a)
    (trans : ∀ a b c, le a b → le b c → le a c) (p : κ × α → Bool) (es : Entries κ α) :
    sortBy le (es.filter p) = (sortBy le es).filter p := by
  induction es with
  | nil => rfl
  | cons e es ih =>
    by_cases he : p e = true
    · rw [List.filter_cons_of_pos he, sortBy, sortBy, ih,
        filter_insertBy trans he (sortBy_pairwise total trans es)]
    · rw [List.filter_cons_of_neg he, sortBy, filter_insertBy_of_neg le he, ih]

theorem insertBy_map (le : κ → κ → Bool) (f : α → β) (e : κ × α) (es : Entries κ α) :
    insertBy le (e.1, f e.2) (es.map fun e => (e.1, f e.2)) =
      (insertBy le e es).map fun e => (e.1, f e.2) := by
  induction es with
  | nil => rfl
  | cons d es ih =>
    rw [List.map_cons, insertBy, insertBy, ih]
    split <;> rfl

theorem sortBy_map (le : κ → κ → Bool) (f : α → β) (es : Entries κ α) :
    sortBy le (es.map fun e => (e.1, f e.2)) = (sortBy le es).map fun e => (e.1, f e.2) := by
  induction es with
  | nil => rfl
  | cons e es ih => rw [List.map_cons, sortBy, ih, insertBy_map, sortBy]

end Order

/-! ### Entries under names -/

theorem name_total (a b : String) : decide (a ≤ b) ∨ decide (b ≤ a) := by
  simpa using String.le_total a b

theorem name_trans (a b c : String) (hab : decide (a ≤ b)) (hbc : decide (b ≤ c)) :
    decide (a ≤ c) :=
  decide_eq_true (String.le_trans (of_decide_eq_true hab) (of_decide_eq_true hbc))

theorem name_antisymm (a b : String) (hab : decide (a ≤ b)) (hba : decide (b ≤ a)) : a = b :=
  String.le_antisymm (of_decide_eq_true hab) (of_decide_eq_true hba)

/-- Names are ordered by their code points. -/
def sorted (es : Entries String α) : Entries String α := sortBy (fun a b => decide (a ≤ b)) es

theorem sorted_eq_nil_iff {es : Entries String α} : sorted es = [] ↔ es = [] := by
  rw [← List.length_eq_zero_iff, sorted, length_sortBy, List.length_eq_zero_iff]

theorem sorted_pairwise (es : Entries String α) : (sorted es).Pairwise fun a b => a.1 ≤ b.1 := by
  refine (sortBy_pairwise name_total name_trans es).imp ?_
  intro a b hab
  exact of_decide_eq_true hab

/-- Different names stand in strictly ascending order. -/
theorem sorted_pairwise_lt {es : Entries String α} (h : (keys es).Nodup) :
    (sorted es).Pairwise fun a b => a.1 < b.1 := by
  have hperm : (sorted es).Perm es := sortBy_perm _ es
  have hne : (sorted es).Pairwise fun a b => a.1 ≠ b.1 :=
    List.pairwise_map.1 ((hperm.map Prod.fst).nodup_iff.2 h)
  refine (sorted_pairwise es).imp₂ ?_ hne
  intro a b hle hab
  exact String.not_le.1 fun hba => hab (String.le_antisymm hle hba)

theorem sorted_eq_of_perm {es ds : Entries String α} (h : es.Perm ds) (hes : (keys es).Nodup) :
    sorted es = sorted ds :=
  sortBy_eq_of_perm name_total name_trans name_antisymm h hes

theorem sorted_sorted (es : Entries String α) : sorted (sorted es) = sorted es :=
  sortBy_eq_self (by simpa using sorted_pairwise es)

theorem ascending_iff {es : Entries String α} :
    (es.Pairwise fun a b => a.1 < b.1) ↔ (keys es).Pairwise (· < ·) :=
  List.pairwise_map.symm

/-- A listing by name stays as it is. -/
theorem sorted_eq_self {es : Entries String α} (h : es.Pairwise fun a b => a.1 < b.1) :
    sorted es = es :=
  sortBy_eq_self (h.imp fun hlt => decide_eq_true (Std.le_of_lt hlt))

theorem sorted_map (f : α → β) (es : Entries String α) :
    sorted (es.map fun e => (e.1, f e.2)) = (sorted es).map fun e => (e.1, f e.2) :=
  sortBy_map _ f es

theorem sorted_filter (p : String × α → Bool) (es : Entries String α) :
    sorted (es.filter p) = (sorted es).filter p :=
  sortBy_filter name_total name_trans p es

end Entries

def sortedNames (names : List String) : List String :=
  (Entries.sorted (names.map fun name => (name, ()))).map Prod.fst

end StateText
