import StateText.Proofs.WholeNumbers

/-!
# Literals of whole numbers

A number of a document with a whole value is an integer or a whole floating-point number. Its
literal has its own digits and nothing else below `wholeLimit`, and an exponent from `exponentLimit`
on. Between the two limits, `number_of_value_eq_int` says, a floating-point number keeps a fraction.
-/

namespace StateText

namespace Decimal

theorem value_lt_zpow (d : Decimal) : d.value < 10 ^ (d.leading + 1) := by
  have hlt : d.coefficient < 10 ^ d.digits.length :=
    (Nat.length_toDigits_le_iff (by decide) Nat.length_toDigits_pos).1 le_rfl
  have hcast : (d.coefficient : ℚ) < 10 ^ d.digits.length := by exact_mod_cast hlt
  calc d.value < 10 ^ d.digits.length * 10 ^ d.exponent :=
        mul_lt_mul_of_pos_right hcast (by positivity)
    _ = 10 ^ (d.leading + 1) := by
        rw [← zpow_natCast, ← zpow_add₀ (by norm_num), leading]
        congr 1
        omega

def IsScientific (cs : List Char) : Prop :=
  ∃ lead rest exponent, lead.isDigit = true ∧ (∀ c ∈ rest, c.isDigit = true) ∧
    cs = lead :: (if rest = [] then [] else '.' :: rest) ++ 'e' :: '+' :: Nat.toDigits 10 exponent

theorem isScientific_scientific {d : Decimal} (h : 0 ≤ d.leading) : IsScientific d.scientific := by
  have hdigits : ∀ c ∈ d.digits, c.isDigit = true := fun c hc =>
    Nat.isDigit_of_mem_toDigits (by decide) (by decide) hc
  unfold scientific
  rw [if_neg (not_lt.2 h)]
  cases hds : d.digits with
  | nil => exact absurd hds Nat.toDigits_ne_nil
  | cons lead rest =>
    rw [hds, List.forall_mem_cons] at hdigits
    refine ⟨lead, rest, d.leading.natAbs, hdigits.1, hdigits.2, ?_⟩
    cases rest with
    | nil => rfl
    | cons c rest => rfl

end Decimal

namespace Binary64

variable {x : Binary64} {n : ℕ}

theorem whole?_of_magnitude (h : x.magnitude = n) : x.whole? = some n := by
  have hpos := ratio_pos x.significand x.exponent
  have hne : ((ratio x.significand x.exponent).2 : ℚ) ≠ 0 := by exact_mod_cast hpos.ne'
  have heq : (ratio x.significand x.exponent).1 = n * (ratio x.significand x.exponent).2 := by
    rw [magnitude, ← quotient_ratio, div_eq_iff hne] at h
    exact_mod_cast h
  unfold whole?
  dsimp only
  rw [heq, Nat.mul_mod_left, if_pos rfl, Nat.mul_div_cancel _ hpos]

/-- What the search finds is no smaller than the power of ten below the number. -/
theorem zpow_le_value_firstGrid {q p : ℤ} (hq : 10 ^ q ≤ x.magnitude) (hp : p ≤ q) (fuel : ℕ) :
    10 ^ q ≤ (x.firstGrid p fuel).value := by
  have hfloor {p : ℤ} (hp : p ≤ q) {c : ℕ} (hc : x.floorAt p ≤ c) : 10 ^ q ≤ (c : ℚ) * 10 ^ p := by
    obtain ⟨k, rfl⟩ : ∃ k : ℕ, q = k + p := ⟨(q - p).toNat, by omega⟩
    have hle : 10 ^ k ≤ x.floorAt p := by
      rw [floorAt_eq_floor]
      apply Nat.le_floor
      rw [le_div_iff₀ (by positivity)]
      push_cast
      rwa [zpow_add₀ (by norm_num), zpow_natCast] at hq
    have hcast : (10 : ℚ) ^ k ≤ c := by exact_mod_cast hle.trans hc
    rw [zpow_add₀ (by norm_num), zpow_natCast]
    exact mul_le_mul_of_nonneg_right hcast (by positivity)
  induction fuel generalizing p with
  | zero => exact hfloor hp le_rfl
  | succ fuel ih =>
    rw [firstGrid]
    cases hgrid : x.onGrid? p with
    | some d =>
      obtain ⟨rfl, hcoefficient, _⟩ := onGrid?_eq_some hgrid
      have hle : x.floorAt d.exponent ≤ d.coefficient := by omega
      exact hfloor hp hle
    | none => exact ih (by omega)

/-- A number from the limit on has an exponent from the limit on. -/
theorem leading_shortest_of_large (h : x.magnitude = n) (hn : Number.exponentLimit ≤ n) :
    16 ≤ x.shortest.leading := by
  have hlarge : (10 : ℚ) ^ (16 : ℤ) ≤ x.magnitude := by
    rw [h]
    exact_mod_cast hn
  have hx : x.significand ≠ 0 := magnitude_pos_iff.1 (lt_of_lt_of_le (by positivity) hlarge)
  obtain ⟨habove, hbelow, _⟩ := x.floorLog10_spec
  have hlog : (16 : ℤ) < x.floorLog10 + 1 :=
    (zpow_lt_zpow_iff_right₀ (by norm_num)).1 (hlarge.trans_lt habove)
  have hvalue : (10 : ℚ) ^ x.floorLog10 ≤ x.shortest.value := by
    rw [shortest, if_neg hx, Decimal.value_strip]
    exact zpow_le_value_firstGrid (hbelow hx) le_rfl 17
  have hleading : x.floorLog10 < x.shortest.leading + 1 :=
    (zpow_lt_zpow_iff_right₀ (by norm_num)).1 (hvalue.trans_lt x.shortest.value_lt_zpow)
  omega

end Binary64

namespace Number

def value : Number → ℚ
  | natural n _ => n
  | negative n _ => -n
  | float x => if x.negative then -x.magnitude else x.magnitude

def isSigned : Number → Bool
  | natural _ _ => false
  | negative _ _ => true
  | float x => x.negative

theorem magnitude_of_value {x : Binary64} {k : ℤ} (h : (float x).value = k) :
    x.magnitude = k.natAbs := by
  have habs : |(float x).value| = x.magnitude := by
    rw [value]
    split_ifs
    · rw [abs_neg, abs_of_nonneg x.magnitude_nonneg]
    · rw [abs_of_nonneg x.magnitude_nonneg]
  rw [← habs, h, Nat.cast_natAbs, Int.cast_abs]

theorem text_large {x : Binary64} {n : ℕ} (h : x.magnitude = n) (hn : exponentLimit ≤ n) :
    (float x).text = signed x.negative x.shortest.scientific := by
  have hleading := Binary64.leading_shortest_of_large h hn
  have hlayout : ¬ (layout.lowest ≤ x.shortest.leading ∧ x.shortest.leading < layout.below) :=
    fun hbelow => absurd hbelow.2 (not_lt.2 hleading)
  rw [text, Decimal.Layout.write, if_neg hlayout]

def HasFraction (cs : List Char) : Prop := '.' ∈ cs ∧ 'e' ∉ cs

theorem not_mem_digits {c : Char} (hc : c.isDigit = false) (n : ℕ) : c ∉ Nat.toDigits 10 n := by
  intro h
  have hdigit := Nat.isDigit_of_mem_toDigits (by decide) (by decide) h
  rw [hc] at hdigit
  cases hdigit

theorem mem_signed_iff {c : Char} (hc : c ≠ '-') (negative : Bool) (cs : List Char) :
    c ∈ signed negative cs ↔ c ∈ cs := by
  cases negative <;> simp [signed, hc]

theorem hasFraction_signed_iff (negative : Bool) (cs : List Char) :
    HasFraction (signed negative cs) ↔ HasFraction cs := by
  rw [HasFraction, mem_signed_iff (by decide), mem_signed_iff (by decide), HasFraction]

theorem not_hasFraction_digits (n : ℕ) : ¬ HasFraction (Nat.toDigits 10 n) :=
  fun h => not_mem_digits rfl n h.1

theorem hasFraction_digits_point (n : ℕ) : HasFraction (Nat.toDigits 10 n ++ ['.', '0']) := by
  have he := not_mem_digits (c := 'e') rfl n
  simp [HasFraction, he]

theorem not_hasFraction_scientific {cs : List Char} (h : Decimal.IsScientific cs) :
    ¬ HasFraction cs := by
  obtain ⟨lead, rest, exponent, _, _, rfl⟩ := h
  simp [HasFraction]

end Number

namespace Literal

open Number

variable {n : Number} {k : ℤ}

theorem number_of_isInteger (hn : n.isInteger = true) (h : n.value = k) :
    number n = signed n.isSigned (Nat.toDigits 10 k.natAbs) := by
  cases n with
  | natural m _ =>
    change (m : ℚ) = k at h
    have hk : k = m := by exact_mod_cast h.symm
    rw [hk, Int.natAbs_natCast]
    rfl
  | negative m _ =>
    change -(m : ℚ) = k at h
    have hk : k = -m := by exact_mod_cast h.symm
    rw [hk, Int.natAbs_neg, Int.natAbs_natCast]
    rfl
  | float x => cases hn

theorem exists_float_of_not_isInteger (hn : n.isInteger = false) : ∃ x, n = .float x := by
  cases n with
  | natural m _ => cases hn
  | negative m _ => cases hn
  | float x => exact ⟨x, rfl⟩

theorem number_of_lt_wholeLimit (h : n.value = k) (hk : k.natAbs < wholeLimit) :
    number n = signed n.isSigned (Nat.toDigits 10 k.natAbs) := by
  by_cases hn : n.isInteger = true
  · exact number_of_isInteger hn h
  · obtain ⟨x, rfl⟩ := exists_float_of_not_isInteger (Bool.eq_false_iff.2 hn)
    exact literal_whole (Binary64.whole?_of_magnitude (magnitude_of_value h)) hk

theorem number_of_wholeLimit_le (hn : n.isInteger = false) (h : n.value = k)
    (hk : wholeLimit ≤ k.natAbs) : number n = n.text := by
  obtain ⟨x, rfl⟩ := exists_float_of_not_isInteger hn
  exact literal_large (Binary64.whole?_of_magnitude (magnitude_of_value h)) (not_lt.2 hk)

/-- A number with a whole value is written with its own digits, or with an exponent, unless it is a
floating-point number between the two limits: this has its own digits and a fraction. -/
theorem number_of_value_eq_int (h : n.value = k) :
    (n.isInteger = true ∨ k.natAbs < wholeLimit →
      number n = signed n.isSigned (Nat.toDigits 10 k.natAbs)) ∧
    (n.isInteger = false → wholeLimit ≤ k.natAbs → k.natAbs < exponentLimit →
      number n = signed n.isSigned (Nat.toDigits 10 k.natAbs ++ ['.', '0'])) ∧
    (n.isInteger = false → exponentLimit ≤ k.natAbs →
      ∃ cs, Decimal.IsScientific cs ∧ number n = signed n.isSigned cs) ∧
    (HasFraction (number n) ↔
      n.isInteger = false ∧ wholeLimit ≤ k.natAbs ∧ k.natAbs < exponentLimit) := by
  have hdigits : n.isInteger = true ∨ k.natAbs < wholeLimit →
      number n = signed n.isSigned (Nat.toDigits 10 k.natAbs) := by
    rintro (hn | hk)
    · exact number_of_isInteger hn h
    · exact number_of_lt_wholeLimit h hk
  have hpoint : n.isInteger = false → wholeLimit ≤ k.natAbs → k.natAbs < exponentLimit →
      number n = signed n.isSigned (Nat.toDigits 10 k.natAbs ++ ['.', '0']) := by
    intro hn hlow hhigh
    rw [number_of_wholeLimit_le hn h hlow]
    obtain ⟨x, rfl⟩ := exists_float_of_not_isInteger hn
    exact text_whole (Binary64.whole?_of_magnitude (magnitude_of_value h)) hhigh
  have hexponent : n.isInteger = false → exponentLimit ≤ k.natAbs →
      ∃ cs, Decimal.IsScientific cs ∧ number n = signed n.isSigned cs := by
    intro hn hlarge
    rw [number_of_wholeLimit_le hn h (le_trans (by decide) hlarge)]
    obtain ⟨x, rfl⟩ := exists_float_of_not_isInteger hn
    have hmagnitude := magnitude_of_value h
    have hleading := Binary64.leading_shortest_of_large hmagnitude hlarge
    exact ⟨_, Decimal.isScientific_scientific (by omega), text_large hmagnitude hlarge⟩
  refine ⟨hdigits, hpoint, hexponent, ?_⟩
  by_cases hplain : n.isInteger = true ∨ k.natAbs < wholeLimit
  · rw [hdigits hplain, hasFraction_signed_iff]
    refine iff_of_false (not_hasFraction_digits _) ?_
    rintro ⟨hn, hlow, _⟩
    exact hplain.elim (fun hinteger => by simp [hn] at hinteger) (not_lt.2 hlow)
  · obtain ⟨hinteger, hlow⟩ := not_or.1 hplain
    have hn : n.isInteger = false := Bool.eq_false_iff.2 hinteger
    by_cases hhigh : k.natAbs < exponentLimit
    · rw [hpoint hn (not_lt.1 hlow) hhigh, hasFraction_signed_iff]
      exact iff_of_true (hasFraction_digits_point _) ⟨hn, not_lt.1 hlow, hhigh⟩
    · obtain ⟨cs, hcs, hnumber⟩ := hexponent hn (not_lt.1 hhigh)
      rw [hnumber, hasFraction_signed_iff]
      exact iff_of_false (not_hasFraction_scientific hcs) fun hband => hhigh hband.2.2

def twoPowFiftyThree : Number := .float ⟨false, Nat.pow 2 52, 1, by decide⟩

theorem value_twoPowFiftyThree : twoPowFiftyThree.value = (9007199254740992 : ℤ) := by
  norm_num [twoPowFiftyThree, Number.value, Binary64.magnitude]

theorem number_of_value_eq_int_twoPowFiftyThree :
    twoPowFiftyThree.value = (9007199254740992 : ℤ) ∧
      number twoPowFiftyThree = signed false (Nat.toDigits 10 9007199254740992 ++ ['.', '0']) :=
  ⟨value_twoPowFiftyThree,
    (number_of_value_eq_int value_twoPowFiftyThree).2.1 rfl (by decide) (by decide)⟩

/-- The smallest whole number that is written with a fraction. -/
theorem exists_whole_hasFraction :
    ∃ n : Number, n.value = (10 ^ 15 : ℤ) ∧ HasFraction (number n) ∧
      number n = "1000000000000000.0".toList := by
  refine ⟨.float ⟨false, 8000000000000000, -3, by decide⟩, ?_, ?_, ?_⟩
  · norm_num [Number.value, Binary64.magnitude]
  · unfold HasFraction
    decide +kernel
  · decide +kernel

end Literal

end StateText
