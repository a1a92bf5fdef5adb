import StateText.Json.Reader
import StateText.Proofs.Ends
import StateText.Proofs.Scaling

/-!
# Numbers read back

What the text of a number is read as. An integer is read as itself. The text of a floating-point
number is always read as a floating-point number, `reread`, which need not be the one that was
written: the reader scales the digits in steps that round more than once.
-/

namespace StateText

namespace Json.Reader

/-- Nothing follows, or what ends an element, a member or the collection around it. -/
def Ended (cs : List Char) : Prop := ∀ c ∈ cs.head?, c = ',' ∨ c = ']' ∨ c = '\x7d'

theorem ended_nil : Ended [] := fun _ h => nomatch h

theorem ended_cons {c : Char} (h : c = ',' ∨ c = ']' ∨ c = '\x7d') (cs : List Char) :
    Ended (c :: cs) := by
  intro d hd
  rwa [← Option.some.inj hd]

theorem Ended.ne {c : Char} {cs : List Char} (h : Ended (c :: cs)) : c.isDigit = false ∧ c ≠ '.' ∧
    isExponentMark c = false := by
  rcases h c rfl with rfl | rfl | rfl <;> decide

def Undigited (cs : List Char) : Prop := ∀ c ∈ cs.head?, c.isDigit = false

theorem Ended.undigited {cs : List Char} (h : Ended cs) : Undigited cs := by
  intro c hc
  cases cs with
  | nil => cases hc
  | cons d cs => exact Option.some.inj hc ▸ h.ne.1

/-! ### Digits -/

theorem le_ofDigitChars (ds : List Char) (n : ℕ) : n ≤ Nat.ofDigitChars 10 ds n := by
  rw [Nat.ofDigitChars_eq_ofDigitChars_zero]
  calc n ≤ 10 ^ ds.length * n := Nat.le_mul_of_pos_left n (Nat.pow_pos (by decide))
    _ ≤ _ := Nat.le_add_right _ _

theorem ofDigitChars_cons' (c : Char) (ds : List Char) (n : ℕ) :
    Nat.ofDigitChars 10 (c :: ds) n = Nat.ofDigitChars 10 ds (n * 10 + digitValue c) := by
  rw [Nat.ofDigitChars_cons, Nat.mul_comm]
  rfl

theorem accumulate_eq {ds : List Char} {n : ℕ} (h : Nat.ofDigitChars 10 ds n < 2 ^ 64) :
    accumulate n ds = (Nat.ofDigitChars 10 ds n, []) := by
  induction ds generalizing n with
  | nil => rfl
  | cons c ds ih =>
    rw [ofDigitChars_cons'] at h ⊢
    have hnext : n * 10 + digitValue c < Nat.pow 2 64 := (le_ofDigitChars ds _).trans_lt h
    rw [accumulate, if_pos hnext, ih h]

theorem exponentValue_append {ds t : List Char} {n : ℕ} (hds : ∀ c ∈ ds, c.isDigit = true)
    (ht : Undigited t) (h : Nat.ofDigitChars 10 ds n < 2 ^ 31) :
    exponentValue n (ds ++ t) = (some (Nat.ofDigitChars 10 ds n), t) := by
  induction ds generalizing n with
  | nil =>
    cases t with
    | nil => rfl
    | cons c t =>
      rw [List.nil_append, exponentValue, ht c rfl]
      rfl
  | cons c ds ih =>
    obtain ⟨hc, hds⟩ := List.forall_mem_cons.1 hds
    rw [ofDigitChars_cons'] at h ⊢
    have hnext : n * 10 + digitValue c < Nat.pow 2 31 := (le_ofDigitChars ds _).trans_lt h
    rw [List.cons_append, exponentValue, if_pos hc]
    dsimp only
    rw [if_pos hnext, ih hds h]

/-- Digits as they may start a number: a zero stands alone. -/
structure Whole (ds : List Char) : Prop where
  ne_nil : ds ≠ []
  isDigit : ∀ c ∈ ds, c.isDigit = true
  zero : ds.head? = some '0' → ds = ['0']

theorem head?_toDigits {n : ℕ} (h : n ≠ 0) : (Nat.toDigits 10 n).head? ≠ some '0' := by
  induction n using Nat.strong_induction_on with
  | _ n ih =>
    by_cases hn : n < 10
    · have hall : ∀ k < 10, k ≠ 0 → k.digitChar ≠ '0' := by decide
      rw [Nat.toDigits_of_lt_base hn]
      exact fun heq => hall n hn h (Option.some.inj heq)
    · rw [Nat.toDigits_of_base_le (by decide) (not_lt.1 hn),
        List.head?_append_of_ne_nil _ Nat.toDigits_ne_nil]
      exact ih (n / 10) (by omega) (by omega)

theorem whole_toDigits (n : ℕ) : Whole (Nat.toDigits 10 n) where
  ne_nil := Nat.toDigits_ne_nil
  isDigit _ hc := Nat.isDigit_of_mem_toDigits (by decide) (by decide) hc
  zero h := by
    have hn : n = 0 := by
      by_contra hne
      exact head?_toDigits hne h
    rw [hn, Nat.toDigits_zero]

/-- A number starts with all the digits in front of its point. -/
theorem number_append {ds t : List Char} (hds : Whole ds) (ht : Undigited t) (negative : Bool) :
    number negative (ds ++ t) = afterWhole negative ds t := by
  obtain ⟨hne, hall, hzero⟩ := hds
  cases ds with
  | nil => exact absurd rfl hne
  | cons c ds =>
    rw [List.cons_append, number]
    by_cases hc : c = '0'
    · subst hc
      obtain rfl : ds = [] := (List.cons.inj (hzero rfl)).2
      have hnone : (t.take 1).any Char.isDigit = false := by
        cases t with
        | nil => rfl
        | cons d t => simp [ht d rfl]
      rw [List.nil_append, if_pos rfl, hnone]
      rfl
    · obtain ⟨htake, hdrop⟩ := Text.span_append hall ht
      rw [if_neg hc, if_pos (hall c List.mem_cons_self), ← List.cons_append, htake, hdrop]

theorem optionalExponent_of_ended {t : List Char} (ht : Ended t) (negative : Bool)
    (significand : ℕ) (start : ℤ) :
    optionalExponent negative significand start t = finishFloat negative significand start t := by
  cases t with
  | nil => rfl
  | cons c t =>
    rw [optionalExponent, ht.ne.2.2]
    rfl

theorem fraction_append {es t : List Char} (hne : es ≠ []) (hes : ∀ c ∈ es, c.isDigit = true)
    (ht : Undigited t) (negative : Bool) {n : ℕ} (h : Nat.ofDigitChars 10 es n < 2 ^ 64) :
    fraction negative n 0 (es ++ t) =
      optionalExponent negative (Nat.ofDigitChars 10 es n) (-es.length) t := by
  obtain ⟨htake, hdrop⟩ := Text.span_append hes ht
  unfold fraction
  dsimp only
  rw [htake, hdrop, accumulate_eq h]
  cases es with
  | nil => exact absurd rfl hne
  | cons e es => simp

/-- A number with a point, up to its exponent. -/
theorem number_point {ds es t : List Char} (hds : Whole ds) (hne : es ≠ [])
    (hes : ∀ c ∈ es, c.isDigit = true) (ht : Undigited t)
    (h : Nat.ofDigitChars 10 (ds ++ es) 0 < 2 ^ 64) (negative : Bool) :
    number negative (ds ++ '.' :: (es ++ t)) =
      optionalExponent negative (Nat.ofDigitChars 10 (ds ++ es) 0) (-es.length) t := by
  have hpoint : Undigited ('.' :: (es ++ t)) := by
    intro c hc
    rw [← Option.some.inj hc]
    rfl
  rw [Nat.ofDigitChars_append] at h ⊢
  have hfront : accumulate 0 ds = (Nat.ofDigitChars 10 ds 0, []) :=
    accumulate_eq ((le_ofDigitChars es _).trans_lt h)
  rw [number_append hds hpoint, afterWhole, hfront]
  exact fraction_append hne hes ht negative h

/-- A number with an exponent right behind its first digits. -/
theorem number_mark {ds t : List Char} (hds : Whole ds) (h : Nat.ofDigitChars 10 ds 0 < 2 ^ 64)
    (negative : Bool) : number negative (ds ++ 'e' :: t) =
      optionalExponent negative (Nat.ofDigitChars 10 ds 0) 0 ('e' :: t) := by
  have hmark : Undigited ('e' :: t) := by
    intro c hc
    rw [← Option.some.inj hc]
    rfl
  rw [number_append hds hmark, afterWhole, accumulate_eq h]
  rfl

theorem optionalExponent_mark {t : List Char} (ht : Ended t) (negative : Bool) (significand : ℕ)
    (start : ℤ) {e : ℤ} (he : e.natAbs < 2 ^ 31) :
    optionalExponent negative significand start
      ('e' :: (if e < 0 then '-' else '+') :: (Nat.toDigits 10 e.natAbs ++ t)) =
        finishFloat negative significand (start + e) t := by
  obtain ⟨hne, hall, _⟩ := whole_toDigits e.natAbs
  have hvalue := exponentValue_append (n := 0) hall ht.undigited
    (by rwa [Nat.ofDigitChars_ten_toDigits])
  rw [Nat.ofDigitChars_ten_toDigits] at hvalue
  cases hds : Nat.toDigits 10 e.natAbs with
  | nil => exact absurd hds hne
  | cons d ds =>
    rw [hds] at hvalue hall
    have hd := hall d List.mem_cons_self
    rw [List.cons_append] at hvalue
    rw [optionalExponent, if_pos (by decide), exponent]
    by_cases hsign : e < 0
    · rw [if_pos hsign, exponentSign, List.cons_append]
      dsimp only
      rw [if_pos hd, hvalue]
      dsimp only
      rw [if_pos rfl, show start - (e.natAbs : ℤ) = start + e by omega]
    · rw [if_neg hsign, exponentSign, List.cons_append]
      dsimp only
      rw [if_pos hd, hvalue]
      dsimp only
      rw [if_neg Bool.false_ne_true, show start + (e.natAbs : ℤ) = start + e by omega]

/-! ### Decimals -/

section Decimals

variable {d : Decimal} {t : List Char}

theorem whole_digits (d : Decimal) : Whole d.digits := whole_toDigits d.coefficient

theorem ofDigitChars_digits (d : Decimal) : Nat.ofDigitChars 10 d.digits 0 = d.coefficient :=
  Nat.ofDigitChars_ten_toDigits

theorem isDigit_replicate (n : ℕ) : ∀ c ∈ List.replicate n '0', c.isDigit = true := by
  intro c hc
  rw [List.eq_of_mem_replicate hc]
  rfl

/-- A decimal below one, behind zeros. -/
theorem number_below_one (ht : Ended t) (hc : d.coefficient < 2 ^ 64) (hpoint : d.leading + 1 ≤ 0)
    (negative : Bool) :
    number negative (['0'] ++ '.' ::
      (List.replicate (-(d.leading + 1)).toNat '0' ++ d.digits ++ t)) =
        finishFloat negative d.coefficient d.exponent t := by
  have hfront : Whole ['0'] := whole_toDigits 0
  have hvalue : Nat.ofDigitChars 10
      (['0'] ++ (List.replicate (-(d.leading + 1)).toNat '0' ++ d.digits)) 0 = d.coefficient := by
    rw [Nat.ofDigitChars_append, Nat.ofDigitChars_append, Nat.ofDigitChars_replicate_zero]
    exact ofDigitChars_digits d
  have hne : List.replicate (-(d.leading + 1)).toNat '0' ++ d.digits ≠ [] :=
    List.append_ne_nil_of_right_ne_nil _ (whole_digits d).ne_nil
  have hall : ∀ c ∈ List.replicate (-(d.leading + 1)).toNat '0' ++ d.digits,
      c.isDigit = true := by
    intro c hc
    exact (List.mem_append.1 hc).elim (isDigit_replicate _ c) ((whole_digits d).isDigit c)
  have hexponent : -((List.replicate (-(d.leading + 1)).toNat '0' ++ d.digits).length : ℤ) =
      d.exponent := by
    rw [List.length_append, List.length_replicate]
    unfold Decimal.leading at hpoint ⊢
    omega
  rw [number_point hfront hne hall ht.undigited (by rwa [hvalue]), hvalue, hexponent,
    optionalExponent_of_ended ht]

/-- What a whole number becomes by the zero behind its point. -/
theorem whole_lt (hwhole : 0 ≤ d.exponent) (hbelow : d.leading < 16) :
    d.coefficient * 10 ^ (d.exponent.toNat + 1) < 2 ^ 64 := by
  have hlength : d.digits.length + d.exponent.toNat ≤ 16 := by
    unfold Decimal.leading at hbelow
    omega
  have hcoefficient : d.coefficient < 10 ^ d.digits.length :=
    (Nat.length_toDigits_le_iff (by decide) Nat.length_toDigits_pos).1 le_rfl
  calc d.coefficient * 10 ^ (d.exponent.toNat + 1)
      < 10 ^ d.digits.length * 10 ^ (d.exponent.toNat + 1) :=
        Nat.mul_lt_mul_of_pos_right hcoefficient (Nat.pow_pos (by decide))
    _ = 10 ^ (d.digits.length + d.exponent.toNat + 1) := by rw [← Nat.pow_add]; rfl
    _ ≤ 10 ^ 17 := Nat.pow_le_pow_right (by decide) (by omega)
    _ < 2 ^ 64 := by decide

/-- A whole number with a point and a zero. -/
theorem number_of_whole (ht : Ended t) (hzero : d.coefficient = 0 → d.exponent = 0)
    (hwhole : 0 ≤ d.exponent) (hbelow : d.leading < 16) (negative : Bool) :
    number negative (d.digits ++ List.replicate ((d.leading + 1).toNat - d.digits.length) '0' ++
      '.' :: (['0'] ++ t)) =
        finishFloat negative (d.coefficient * 10 ^ (d.exponent.toNat + 1)) (-1) t := by
  have hzeros : (d.leading + 1).toNat - d.digits.length = d.exponent.toNat := by
    unfold Decimal.leading
    omega
  have hfront : Whole (d.digits ++ List.replicate d.exponent.toNat '0') := by
    by_cases hc : d.coefficient = 0
    · rw [hzero hc, Decimal.digits, hc]
      exact whole_toDigits 0
    · refine ⟨List.append_ne_nil_of_left_ne_nil (whole_digits d).ne_nil _, fun c hmem => ?_,
        fun hhead => ?_⟩
      · exact (List.mem_append.1 hmem).elim ((whole_digits d).isDigit c) (isDigit_replicate _ c)
      · rw [List.head?_append_of_ne_nil _ (whole_digits d).ne_nil] at hhead
        exact absurd hhead (head?_toDigits hc)
  have hvalue : Nat.ofDigitChars 10
      (d.digits ++ List.replicate d.exponent.toNat '0' ++ ['0']) 0 =
        d.coefficient * 10 ^ (d.exponent.toNat + 1) := by
    rw [List.append_assoc, ← List.replicate_succ', Nat.ofDigitChars_append, ofDigitChars_digits,
      Nat.ofDigitChars_replicate_zero, Nat.mul_comm]
  have hbits := whole_lt hwhole hbelow
  have hback : ∀ c ∈ ['0'], c.isDigit = true := isDigit_replicate 1
  rw [hzeros, number_point hfront (List.cons_ne_nil _ _) hback ht.undigited (by rwa [hvalue]),
    hvalue, optionalExponent_of_ended ht]
  rfl

/-- A decimal with digits on both sides of its point. -/
theorem number_around_point (ht : Ended t) (hc : d.coefficient < 2 ^ 64)
    (hpoint : 0 < d.leading + 1) (hlength : (d.leading + 1).toNat < d.digits.length)
    (negative : Bool) :
    number negative (d.digits.take (d.leading + 1).toNat ++ '.' ::
      (d.digits.drop (d.leading + 1).toNat ++ t)) =
        finishFloat negative d.coefficient d.exponent t := by
  have hne : d.coefficient ≠ 0 := by
    intro hzero
    have hone : d.digits.length = 1 := by rw [Decimal.digits, hzero, Nat.toDigits_zero]; rfl
    omega
  have hfront : Whole (d.digits.take (d.leading + 1).toNat) := by
    refine ⟨?_, fun c hmem => (whole_digits d).isDigit c (List.mem_of_mem_take hmem),
      fun hhead => ?_⟩
    · rw [ne_eq, List.take_eq_nil_iff, not_or]
      exact ⟨by omega, (whole_digits d).ne_nil⟩
    · rw [List.head?_take, if_neg (by omega)] at hhead
      exact absurd hhead (head?_toDigits hne)
  have hvalue : Nat.ofDigitChars 10 (d.digits.take (d.leading + 1).toNat ++
      d.digits.drop (d.leading + 1).toNat) 0 = d.coefficient := by
    rw [List.take_append_drop, ofDigitChars_digits]
  have hexponent : -((d.digits.drop (d.leading + 1).toNat).length : ℤ) = d.exponent := by
    rw [List.length_drop]
    unfold Decimal.leading at hpoint hlength ⊢
    omega
  have hback : d.digits.drop (d.leading + 1).toNat ≠ [] := by
    rw [ne_eq, List.drop_eq_nil_iff]
    omega
  have hall : ∀ c ∈ d.digits.drop (d.leading + 1).toNat, c.isDigit = true :=
    fun c hmem => (whole_digits d).isDigit c (List.mem_of_mem_drop hmem)
  rw [number_point hfront hback hall ht.undigited (by rwa [hvalue]), hvalue, hexponent,
    optionalExponent_of_ended ht]

theorem number_scientific (ht : Ended t) (hc : d.coefficient < 2 ^ 64)
    (hleading : d.leading.natAbs < 2 ^ 31) (negative : Bool) :
    number negative (d.scientific ++ t) = finishFloat negative d.coefficient d.exponent t := by
  have hvalue := ofDigitChars_digits d
  have hlength : (d.digits.length : ℤ) = d.leading - d.exponent + 1 := by
    unfold Decimal.leading
    omega
  obtain ⟨hne, hall, _⟩ := whole_digits d
  unfold Decimal.scientific
  dsimp only
  rw [List.append_assoc, List.cons_append, List.cons_append]
  cases hds : d.digits with
  | nil => exact absurd hds hne
  | cons c cs =>
    rw [hds] at hvalue hall hlength
    obtain ⟨hdigit, hrest⟩ := List.forall_mem_cons.1 hall
    have hfront : Whole [c] := by
      refine ⟨List.cons_ne_nil _ _, by simpa using hdigit, fun hhead => ?_⟩
      rw [Option.some.inj hhead]
    cases cs with
    | nil =>
      have hexponent : 0 + d.leading = d.exponent := by
        rw [List.length_singleton] at hlength
        omega
      dsimp only
      rw [number_mark hfront (by rwa [hvalue]), optionalExponent_mark ht _ _ _ hleading, hvalue,
        hexponent]
    | cons c' cs =>
      have hmark (ds : List Char) : Undigited ('e' :: ds) := by
        intro e he
        rw [← Option.some.inj he]
        rfl
      have hexponent : -((c' :: cs).length : ℤ) + d.leading = d.exponent := by
        rw [List.length_cons] at hlength
        omega
      change Nat.ofDigitChars 10 ([c] ++ c' :: cs) 0 = d.coefficient at hvalue
      change number negative ([c] ++ '.' :: (c' :: cs ++ 'e' :: _)) = _
      rw [number_point hfront (List.cons_ne_nil _ _) hrest (hmark _) (by rwa [hvalue]),
        optionalExponent_mark ht _ _ _ hleading, hvalue, hexponent]

/-- The digits and the exponent that a decimal is read as: its own, unless it is a whole number with
a point and a zero. -/
def spelled (d : Decimal) : ℕ × ℤ :=
  if (-5 ≤ d.leading ∧ d.leading < 16) ∧ 0 ≤ d.exponent then
    (d.coefficient * 10 ^ (d.exponent.toNat + 1), -1)
  else (d.coefficient, d.exponent)

theorem number_write (ht : Ended t) (hc : d.coefficient < 2 ^ 64)
    (hzero : d.coefficient = 0 → d.exponent = 0) (hleading : d.leading.natAbs < 2 ^ 31)
    (negative : Bool) : number negative (Number.layout.write d ++ t) =
      finishFloat negative (spelled d).1 (spelled d).2 t := by
  unfold Decimal.Layout.write spelled
  by_cases hlayout : -5 ≤ d.leading ∧ d.leading < 16
  · rw [if_pos (show Number.layout.lowest ≤ d.leading ∧ d.leading < Number.layout.below from
      hlayout)]
    unfold Decimal.positional
    dsimp only
    have hlength : d.leading + 1 = d.exponent + d.digits.length := by
      unfold Decimal.leading
      omega
    have hpos : 0 < d.digits.length := List.length_pos_iff.2 (whole_digits d).ne_nil
    split_ifs with hpoint hwhole hwhole hwhole
    · omega
    · exact number_below_one ht hc hpoint negative
    · rw [List.append_assoc]
      exact number_of_whole ht hzero hwhole.2 hlayout.2 negative
    · omega
    · omega
    · rw [List.append_assoc, List.cons_append]
      exact number_around_point ht hc (by omega) (by omega) negative
  · rw [if_neg (show ¬ (Number.layout.lowest ≤ d.leading ∧ d.leading < Number.layout.below) from
      hlayout), if_neg fun h => hlayout h.1]
    exact number_scientific ht hc hleading negative

end Decimals

/-! ### Numbers -/

theorem exists_floatOfParts_spelled (negative : Bool) (x : Binary64) : ∃ y,
    floatOfParts? negative (spelled x.shortest).1 (spelled x.shortest).2 = some (.float y) := by
  unfold spelled
  split_ifs with h
  · exact exists_floatOfParts (p := -1) negative (whole_lt h.2 h.1.2) (.inl (by decide))
  · exact exists_floatOfParts_shortest negative x

theorem natAbs_leading_shortest (x : Binary64) : x.shortest.leading.natAbs < 2 ^ 31 := by
  obtain ⟨hcoefficient, hlow, hhigh, _⟩ := x.shortest_spec
  have hlength : x.shortest.digits.length ≤ 19 :=
    (Nat.length_toDigits_le_iff (by decide) (by decide)).2 (hcoefficient.trans_lt (by decide))
  unfold Decimal.leading
  omega

theorem exponent_shortest_of_zero {x : Binary64} (h : x.shortest.coefficient = 0) :
    x.shortest.exponent = 0 := by
  have hx : x.significand = 0 := by
    by_contra hne
    exact Binary64.coefficient_shortest_ne_zero hne h
  rw [Binary64.shortest, if_pos hx]

/-- The digits of a floating-point number are read as some floating-point number. -/
theorem exists_number_float (x : Binary64) : ∃ y, ∀ t, Ended t →
    number x.negative (Number.layout.write x.shortest ++ t) = .ok (.float y, t) := by
  obtain ⟨y, hy⟩ := exists_floatOfParts_spelled x.negative x
  refine ⟨y, fun t ht => ?_⟩
  have hc : x.shortest.coefficient < 2 ^ 64 := x.shortest_spec.1.trans_lt (by decide)
  rw [number_write ht hc exponent_shortest_of_zero (natAbs_leading_shortest x), finishFloat, hy]

theorem number_integer {negative : Bool} {m : ℕ} {n : Number} (hm : m < 2 ^ 64)
    (hn : Number.ofInteger? negative m = some n) {t : List Char} (ht : Ended t) :
    number negative (Nat.toDigits 10 m ++ t) = .ok (n, t) := by
  have hbits : Nat.ofDigitChars 10 (Nat.toDigits 10 m) 0 < 2 ^ 64 := by
    rwa [Nat.ofDigitChars_ten_toDigits]
  rw [number_append (whole_toDigits m) ht.undigited, afterWhole, accumulate_eq hbits,
    Nat.ofDigitChars_ten_toDigits]
  dsimp only
  cases t with
  | nil =>
    rw [if_pos ⟨rfl, rfl⟩, hn]
  | cons c t =>
    obtain ⟨_, hpoint, hmark⟩ := ht.ne
    have hmarks : ((c :: t).take 1).any isExponentMark = false := by simp [hmark]
    split
    next heq => exact absurd (List.cons.inj heq).1 hpoint
    next => rw [if_pos ⟨rfl, by rw [hmarks]; rfl⟩, hn]

/-- The text of `n` is read as `m` wherever it ends. -/
def Reads (n m : Number) : Prop := ∃ negative body, n.text = Number.signed negative body ∧
  ∀ t, Ended t → number negative (body ++ t) = .ok (m, t)

theorem exists_reads_float (x : Binary64) : ∃ y, Reads (.float x) (.float y) := by
  obtain ⟨y, hy⟩ := exists_number_float x
  exact ⟨y, x.negative, _, rfl, hy⟩

theorem reads_natural (n : ℕ) (h : n < Nat.pow 2 64) : Reads (.natural n h) (.natural n h) :=
  ⟨false, _, rfl, fun _ ht => number_integer h (by rw [Number.ofInteger?, if_neg (by decide),
    dif_pos h]) ht⟩

theorem reads_negative (n : ℕ) (h : 0 < n ∧ n ≤ Nat.pow 2 63) :
    Reads (.negative n h) (.negative n h) :=
  ⟨true, _, rfl, fun _ ht => number_integer (h.2.trans_lt (by decide))
    (by rw [Number.ofInteger?, if_pos rfl, dif_pos h]) ht⟩

theorem isDigit_of_number {negative : Bool} {cs rest : List Char} {n : Number}
    (h : number negative cs = .ok (n, rest)) : ∃ c cs', cs = c :: cs' ∧ c.isDigit = true := by
  cases cs with
  | nil => cases h
  | cons c cs =>
    refine ⟨c, cs, rfl, ?_⟩
    rw [number] at h
    split_ifs at h with hzero hskip hdigit
    · rw [hzero]; rfl
    · exact hdigit

/-- A text starts with its sign, if any, and a digit. -/
theorem Reads.cases {n m : Number} (h : Reads n m) : ∃ c cs, c.isDigit = true ∧
    (n.text = '-' :: c :: cs ∧ (∀ t, Ended t → number true (c :: cs ++ t) = .ok (m, t)) ∨
      n.text = c :: cs ∧ ∀ t, Ended t → number false (c :: cs ++ t) = .ok (m, t)) := by
  obtain ⟨negative, body, htext, hread⟩ := h
  have hbody := hread [] ended_nil
  rw [List.append_nil] at hbody
  obtain ⟨c, cs, rfl, hc⟩ := isDigit_of_number hbody
  cases negative with
  | true => exact ⟨c, cs, hc, .inl ⟨htext, hread⟩⟩
  | false => exact ⟨c, cs, hc, .inr ⟨htext, hread⟩⟩

theorem Reads.signedNumber {n m : Number} (h : Reads n m) {t : List Char} (ht : Ended t) :
    signedNumber (n.text ++ t) = .ok (m, t) := by
  obtain ⟨c, cs, hc, ⟨htext, hread⟩ | ⟨htext, hread⟩⟩ := h.cases
  · rw [htext, List.cons_append, Reader.signedNumber, if_pos rfl, hread t ht]
  · have hsign : c ≠ '-' := by
      rintro rfl
      cases hc
    rw [htext, List.cons_append, Reader.signedNumber, if_neg hsign, if_pos hc, ← List.cons_append,
      hread t ht]

end Json.Reader

open Json.Reader

namespace Number

theorem ofText?_of_reads {n m : Number} (h : Reads n m) :
    ofText? (String.ofList n.text) = some m := by
  have hread := h.signedNumber ended_nil
  rw [List.append_nil] at hread
  rw [ofText?, Json.parseNumber, String.toList_ofList, hread]

end Number

def Binary64.reread (x : Binary64) : Binary64 :=
  match Number.ofText? (String.ofList (Number.float x).text) with
  | some (.float y) => y
  | _ => x

namespace Number

/-- The number that the written digits are read as: another one at most for a floating-point
number. -/
def reread : Number → Number
  | natural n h => natural n h
  | negative n h => negative n h
  | float x => float x.reread

theorem reads_reread : ∀ n : Number, Reads n n.reread
  | natural n h => reads_natural n h
  | negative n h => reads_negative n h
  | float x => by
    obtain ⟨y, hy⟩ := exists_reads_float x
    rw [reread, Binary64.reread, ofText?_of_reads hy]
    exact hy

theorem ofText?_text (n : Number) : ofText? (String.ofList n.text) = some n.reread :=
  ofText?_of_reads n.reads_reread

end Number

end StateText
