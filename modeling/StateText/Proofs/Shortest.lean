import Mathlib.Data.Nat.Cast.Order.Field
import StateText.Number.Shortest
import StateText.Proofs.Rounding

/-!
# The range of shortest decimals

The shortest decimal of a binary number has a coefficient of 64 bits, an exponent of three digits
and a value that is not more than half a step above the number.
-/

namespace StateText

theorem zpow_eq_div (b : ℚ) (p : ℤ) : b ^ p = b ^ p.toNat / b ^ (-p).toNat := by
  rcases Int.le_total 0 p with h | h
  · rw [Int.toNat_of_nonpos (Int.neg_nonpos_of_nonneg h), pow_zero, div_one, ← zpow_natCast,
      Int.toNat_of_nonneg h]
  · rw [Int.toNat_of_nonpos h, pow_zero, one_div, ← zpow_natCast,
      Int.toNat_of_nonneg (Int.neg_nonneg_of_nonpos h), zpow_neg, inv_inv]

theorem mul_zpow_lt_mul_zpow_iff {r s : ℕ} (hr : 0 < r) (hs : 0 < s) (a b : ℕ) (p q : ℤ) :
    (a : ℚ) * r ^ p < b * s ^ q ↔
      a * Nat.pow r p.toNat * Nat.pow s (-q).toNat <
        b * Nat.pow s q.toNat * Nat.pow r (-p).toNat := by
  rw [zpow_eq_div (r : ℚ) p, zpow_eq_div (s : ℚ) q, ← mul_div_assoc, ← mul_div_assoc,
    div_lt_div_iff₀ (by positivity) (by positivity), ← Nat.cast_lt (α := ℚ)]
  simp only [Nat.pow_eq]
  push_cast
  rfl

namespace Decimal

def value (d : Decimal) : ℚ := d.coefficient * 10 ^ d.exponent

theorem compareBinary_eq_lt_iff {a b : ℕ} {p q : ℤ} :
    compareBinary a p b q = .lt ↔ (a : ℚ) * 10 ^ p < b * 2 ^ q := by
  have h := mul_zpow_lt_mul_zpow_iff (r := 10) (s := 2) (by decide) (by decide) a b p q
  rw [compareBinary, compare_lt_iff_lt]
  exact_mod_cast h.symm

theorem compareBinary_eq_gt_iff {a b : ℕ} {p q : ℤ} :
    compareBinary a p b q = .gt ↔ (b : ℚ) * 2 ^ q < a * 10 ^ p := by
  have h := mul_zpow_lt_mul_zpow_iff (r := 2) (s := 10) (by decide) (by decide) b a q p
  rw [compareBinary, compare_gt_iff_gt]
  exact_mod_cast h.symm

theorem compareBinary_ne_gt_iff {a b : ℕ} {p q : ℤ} :
    compareBinary a p b q ≠ .gt ↔ (a : ℚ) * 10 ^ p ≤ b * 2 ^ q := by
  rw [ne_eq, compareBinary_eq_gt_iff, not_lt]

theorem value_eq_zero_iff {d : Decimal} : d.value = 0 ↔ d.coefficient = 0 := by
  rw [value, mul_eq_zero_iff_right (zpow_ne_zero _ (by norm_num)), Nat.cast_eq_zero]

theorem value_strip (d : Decimal) (fuel : ℕ) : (d.strip fuel).value = d.value := by
  induction fuel generalizing d with
  | zero => rfl
  | succ fuel ih =>
    rw [strip]
    split_ifs with h
    · have hdiv : ((d.coefficient / 10 : ℕ) : ℚ) * 10 = d.coefficient := by
        exact_mod_cast Nat.div_mul_cancel (Nat.dvd_of_mod_eq_zero h.2)
      rw [ih, value, value, ← hdiv, zpow_add_one₀ (by norm_num)]
      ring
    · rfl

theorem coefficient_strip_le (d : Decimal) (fuel : ℕ) :
    (d.strip fuel).coefficient ≤ d.coefficient := by
  induction fuel generalizing d with
  | zero => exact le_rfl
  | succ fuel ih =>
    rw [strip]
    split_ifs with h
    · exact (ih _).trans (Nat.div_le_self _ _)
    · exact le_rfl

theorem exponent_strip (d : Decimal) (fuel : ℕ) :
    d.exponent ≤ (d.strip fuel).exponent ∧ (d.strip fuel).exponent ≤ d.exponent + fuel := by
  induction fuel generalizing d with
  | zero => exact ⟨le_rfl, by simp [strip]⟩
  | succ fuel ih =>
    rw [strip]
    split_ifs with h
    · have := ih ⟨d.coefficient / 10, d.exponent + 1⟩
      dsimp only at this
      omega
    · omega

end Decimal

namespace Binary64

open Decimal (compareBinary compareBinary_eq_lt_iff compareBinary_eq_gt_iff
  compareBinary_ne_gt_iff)

/-- The end of the interval of numbers that round to `x`. -/
def upperEnd (x : Binary64) : ℚ := (x.significand + 1 / 2) * 2 ^ x.exponent

theorem magnitude_le_upperEnd (x : Binary64) : x.magnitude ≤ x.upperEnd := by
  unfold magnitude upperEnd
  gcongr
  linarith

/-- What rounds to a number is not above the end of its interval. -/
theorem le_upperEnd_of_rounds {x : Binary64} {c : ℕ} {p : ℤ} (h : x.rounds c p = true) :
    (c : ℚ) * 10 ^ p ≤ x.upperEnd := by
  have hne : compareBinary c p (4 * x.significand + 2) (x.exponent - 2) ≠ .gt := by
    unfold rounds at h
    dsimp only at h
    intro hgt
    rw [hgt] at h
    split_ifs at h <;> simp at h
  refine (compareBinary_ne_gt_iff.1 hne).trans_eq ?_
  rw [upperEnd, zpow_sub₀ two_ne_zero]
  push_cast
  norm_num
  ring

/-- Zero rounds to zero only. -/
theorem ne_zero_of_rounds {x : Binary64} (hx : x.significand ≠ 0) {c : ℕ} {p : ℤ}
    (h : x.rounds c p = true) : c ≠ 0 := by
  rintro rfl
  have hgap : x.gapBelow ≤ 2 := by
    unfold gapBelow
    split_ifs <;> omega
  have hlow : compareBinary 0 p (4 * x.significand - x.gapBelow) (x.exponent - 2) = .lt := by
    have hpos : (0 : ℚ) < (4 * x.significand - x.gapBelow : ℕ) := by
      rw [Nat.cast_pos]
      omega
    rw [compareBinary_eq_lt_iff, Nat.cast_zero, zero_mul]
    positivity
  unfold rounds at h
  dsimp only at h
  rw [hlow] at h
  split_ifs at h <;> simp at h

theorem quotient_floorAt (x : Binary64) (p : ℤ) :
    ((x.significand * Nat.pow 2 x.exponent.toNat * Nat.pow 10 (-p).toNat : ℕ) : ℚ) /
      (Nat.pow 2 (-x.exponent).toNat * Nat.pow 10 p.toNat : ℕ) = x.magnitude / 10 ^ p := by
  rw [magnitude, zpow_eq_div 2 x.exponent, zpow_eq_div 10 p]
  simp only [Nat.pow_eq]
  push_cast
  field_simp

theorem floorAt_le (x : Binary64) (p : ℤ) : (x.floorAt p : ℚ) ≤ x.magnitude / 10 ^ p :=
  Nat.cast_div_le.trans_eq (x.quotient_floorAt p)

theorem floorAt_ne_zero {x : Binary64} {p : ℤ} (h : 10 ^ p ≤ x.magnitude) : x.floorAt p ≠ 0 := by
  have hden : 0 < Nat.pow 2 (-x.exponent).toNat * Nat.pow 10 p.toNat :=
    Nat.mul_pos (Nat.pow_pos (by decide)) (Nat.pow_pos (by decide))
  have hone : 1 ≤ x.magnitude / 10 ^ p := (one_le_div₀ (by positivity)).2 h
  rw [← quotient_floorAt, one_le_div₀ (by exact_mod_cast hden), Nat.cast_le] at hone
  exact (Nat.div_pos hone hden).ne'

theorem onGrid?_eq_some {x : Binary64} {p : ℤ} {d : Decimal} (h : x.onGrid? p = some d) :
    d.exponent = p ∧ (d.coefficient = x.floorAt p ∨ d.coefficient = x.floorAt p + 1) ∧
      x.rounds d.coefficient p = true := by
  unfold onGrid? at h
  dsimp only at h
  split at h
  next hlow hhigh =>
    have hnext : x.floorAt p + x.floorAt p % 2 = x.floorAt p ∨
        x.floorAt p + x.floorAt p % 2 = x.floorAt p + 1 := by omega
    split at h
    · cases h
      exact ⟨rfl, .inl rfl, hlow⟩
    · cases h
      exact ⟨rfl, .inr rfl, hhigh⟩
    · cases h
      rcases hnext with heq | heq <;> dsimp only <;> rw [heq]
      · exact ⟨rfl, .inl rfl, hlow⟩
      · exact ⟨rfl, .inr rfl, hhigh⟩
  next hlow _ =>
    cases h
    exact ⟨rfl, .inl rfl, hlow⟩
  next _ hhigh =>
    cases h
    exact ⟨rfl, .inr rfl, hhigh⟩
  next => cases h

theorem firstGrid_spec (x : Binary64) (p : ℤ) (fuel : ℕ) :
    (p - fuel ≤ (x.firstGrid p fuel).exponent ∧ (x.firstGrid p fuel).exponent ≤ p) ∧
      (x.firstGrid p fuel).coefficient ≤ x.floorAt (x.firstGrid p fuel).exponent + 1 ∧
      (x.firstGrid p fuel).value ≤ x.upperEnd := by
  induction fuel generalizing p with
  | zero =>
    refine ⟨⟨by simp [firstGrid], le_rfl⟩, Nat.le_succ _, ?_⟩
    refine le_trans ?_ x.magnitude_le_upperEnd
    exact (le_div_iff₀ (by positivity)).1 (x.floorAt_le p)
  | succ fuel ih =>
    rw [firstGrid]
    cases hgrid : x.onGrid? p with
    | some d =>
      obtain ⟨rfl, hcoefficient, hrounds⟩ := onGrid?_eq_some hgrid
      dsimp only
      exact ⟨⟨by omega, le_rfl⟩, by omega, le_upperEnd_of_rounds hrounds⟩
    | none =>
      obtain ⟨hexp, hrest⟩ := ih (p - 1)
      dsimp only
      exact ⟨⟨by omega, by omega⟩, hrest⟩

/-! ### The decimal exponent -/

def leadingBit (x : Binary64) : ℤ := x.exponent + x.significand.log2

theorem leadingBit_mem (x : Binary64) : -1074 ≤ x.leadingBit ∧ x.leadingBit ≤ 1023 := by
  obtain ⟨hbits, hlow, hhigh, _⟩ := x.canonical
  have hlog : x.significand.log2 < 53 := by
    by_cases hzero : x.significand = 0
    · rw [hzero]
      decide
    · exact (Nat.log2_lt hzero).2 hbits
  unfold leadingBit
  omega

theorem magnitude_lt_zpow (x : Binary64) : x.magnitude < 2 ^ (x.leadingBit + 1) := by
  have hsig : (x.significand : ℚ) < 2 ^ (x.significand.log2 + 1) := by
    exact_mod_cast Nat.lt_log2_self
  calc x.magnitude < 2 ^ (x.significand.log2 + 1) * 2 ^ x.exponent :=
        mul_lt_mul_of_pos_right hsig (zpow_pos two_pos _)
    _ = 2 ^ (x.leadingBit + 1) := by
        rw [← zpow_natCast, ← zpow_add₀ two_ne_zero, leadingBit]
        congr 1
        push_cast
        ring

theorem zpow_le_magnitude {x : Binary64} (h : x.significand ≠ 0) :
    2 ^ x.leadingBit ≤ x.magnitude := by
  have hsig : (2 : ℚ) ^ x.significand.log2 ≤ x.significand := by
    exact_mod_cast Nat.log2_self_le h
  rw [leadingBit, add_comm, zpow_add₀ two_ne_zero, zpow_natCast]
  exact mul_le_mul_of_nonneg_right hsig (by positivity)

/-- The logarithm of two lies between 31 / 103 and 28 / 93. -/
theorem two_pow_bounds : (10 : ℚ) ^ 31 ≤ 2 ^ 103 ∧ (2 : ℚ) ^ 93 ≤ 10 ^ 28 := by
  constructor <;> norm_num

theorem zpow_le_zpow_of_nonpos {a b : ℚ} (ha : 0 < a) (h : a ≤ b) {n : ℤ} (hn : n ≤ 0) :
    b ^ n ≤ a ^ n := by
  obtain ⟨k, rfl⟩ : ∃ k, n = -k := ⟨-n, (neg_neg n).symm⟩
  rw [zpow_neg, zpow_neg]
  exact inv_anti₀ (zpow_pos ha _) (zpow_le_zpow_left₀ (by omega) ha.le h)

theorem zpow_le_zpow_of_pow {a b : ℚ} (ha : 0 < a) (hb : 0 < b) {k : ℕ} (hk : k ≠ 0) {i j : ℤ}
    (h : a ^ (k * i) ≤ b ^ (k * j)) : a ^ i ≤ b ^ j := by
  refine (pow_le_pow_iff_left₀ (by positivity) (by positivity) hk).1 ?_
  rwa [← zpow_natCast, ← zpow_mul, ← zpow_natCast, ← zpow_mul, mul_comm i, mul_comm j]

theorem two_zpow_le_ten_zpow {i j : ℤ} (h : 28 * i ≤ 93 * j) (h' : 31 * i ≤ 103 * j) :
    (2 : ℚ) ^ i ≤ 10 ^ j := by
  rcases Int.le_total 0 i with hi | hi
  · refine zpow_le_zpow_of_pow two_pos (by norm_num) (k := 93) (by decide) ?_
    calc (2 : ℚ) ^ ((93 : ℕ) * i) = (2 ^ 93) ^ i := by rw [zpow_mul, zpow_natCast]
      _ ≤ (10 ^ 28) ^ i := zpow_le_zpow_left₀ hi (by norm_num) two_pow_bounds.2
      _ = 10 ^ (28 * i) := by rw [zpow_mul]; rfl
      _ ≤ 10 ^ ((93 : ℕ) * j) := zpow_le_zpow_right₀ (by norm_num) h
  · refine zpow_le_zpow_of_pow two_pos (by norm_num) (k := 103) (by decide) ?_
    calc (2 : ℚ) ^ ((103 : ℕ) * i) = (2 ^ 103) ^ i := by rw [zpow_mul, zpow_natCast]
      _ ≤ (10 ^ 31) ^ i := zpow_le_zpow_of_nonpos (by norm_num) two_pow_bounds.1 hi
      _ = 10 ^ (31 * i) := by rw [zpow_mul]; rfl
      _ ≤ 10 ^ ((103 : ℕ) * j) := zpow_le_zpow_right₀ (by norm_num) h'

theorem ten_zpow_le_two_zpow {i j : ℤ} (h : 103 * j ≤ 31 * i) (h' : 93 * j ≤ 28 * i) :
    (10 : ℚ) ^ j ≤ 2 ^ i := by
  rcases Int.le_total 0 i with hi | hi
  · refine zpow_le_zpow_of_pow (by norm_num) two_pos (k := 103) (by decide) ?_
    calc (10 : ℚ) ^ ((103 : ℕ) * j) ≤ 10 ^ (31 * i) := zpow_le_zpow_right₀ (by norm_num) h
      _ = (10 ^ 31) ^ i := by rw [zpow_mul]; rfl
      _ ≤ (2 ^ 103) ^ i := zpow_le_zpow_left₀ hi (by norm_num) two_pow_bounds.1
      _ = 2 ^ ((103 : ℕ) * i) := by rw [zpow_mul, zpow_natCast]
  · refine zpow_le_zpow_of_pow (by norm_num) two_pos (k := 93) (by decide) ?_
    calc (10 : ℚ) ^ ((93 : ℕ) * j) ≤ 10 ^ (28 * i) := zpow_le_zpow_right₀ (by norm_num) h'
      _ = (10 ^ 28) ^ i := by rw [zpow_mul]; rfl
      _ ≤ (2 ^ 93) ^ i := zpow_le_zpow_of_nonpos (by norm_num) two_pow_bounds.2 hi
      _ = 2 ^ ((93 : ℕ) * i) := by rw [zpow_mul, zpow_natCast]

/-- For the exponents that there are, the estimate is off by less than two, since 30103 / 100000 is
close to the logarithm of two. -/
theorem estimate_bounds {n : ℤ} (hlow : -1074 ≤ n) (hhigh : n ≤ 1023) :
    (10 : ℚ) ^ (n * 30103 / 100000 - 1) ≤ 2 ^ n ∧
      (2 : ℚ) ^ (n + 1) ≤ 10 ^ (n * 30103 / 100000 + 2) :=
  ⟨ten_zpow_le_two_zpow (by omega) (by omega), two_zpow_le_ten_zpow (by omega) (by omega)⟩

theorem floorLog10_spec (x : Binary64) : x.magnitude < 10 ^ (x.floorLog10 + 1) ∧
    (x.significand ≠ 0 → 10 ^ x.floorLog10 ≤ x.magnitude) ∧
      -325 ≤ x.floorLog10 ∧ x.floorLog10 ≤ 309 := by
  obtain ⟨hlow, hhigh⟩ := x.leadingBit_mem
  obtain ⟨hbelow, habove⟩ := estimate_bounds hlow hhigh
  have hlt := x.magnitude_lt_zpow.trans_le habove
  have hle (hsig : x.significand ≠ 0) := hbelow.trans (zpow_le_magnitude hsig)
  have hfits {p : ℤ} : (compareBinary 1 p x.significand x.exponent != .gt) = true ↔
      10 ^ p ≤ x.magnitude := by
    rw [bne_iff_ne, compareBinary_ne_gt_iff, Nat.cast_one, one_mul, magnitude]
  unfold leadingBit at hlow hhigh hlt hle
  unfold floorLog10
  dsimp only
  split_ifs with hnext hhere
  · refine ⟨?_, fun _ => hfits.1 hnext, by omega, by omega⟩
    rwa [add_assoc]
  · exact ⟨not_le.1 (mt hfits.2 hnext), fun _ => hfits.1 hhere, by omega, by omega⟩
  · refine ⟨?_, hle, by omega, by omega⟩
    rw [sub_add_cancel]
    exact not_le.1 (mt hfits.2 hhere)

theorem coefficient_firstGrid_ne_zero {x : Binary64} (hx : x.significand ≠ 0) {p : ℤ}
    (h : 10 ^ p ≤ x.magnitude) (fuel : ℕ) : (x.firstGrid p fuel).coefficient ≠ 0 := by
  induction fuel generalizing p with
  | zero => exact floorAt_ne_zero h
  | succ fuel ih =>
    rw [firstGrid]
    cases hgrid : x.onGrid? p with
    | some d => exact ne_zero_of_rounds hx (onGrid?_eq_some hgrid).2.2
    | none => exact ih ((zpow_le_zpow_right₀ (by norm_num) (by omega)).trans h)

theorem coefficient_shortest_ne_zero {x : Binary64} (hx : x.significand ≠ 0) :
    x.shortest.coefficient ≠ 0 := by
  rw [shortest, if_neg hx, ne_eq, ← Decimal.value_eq_zero_iff, Decimal.value_strip,
    Decimal.value_eq_zero_iff]
  exact coefficient_firstGrid_ne_zero hx (x.floorLog10_spec.2.1 hx) 17

theorem floorAt_lt (x : Binary64) {p : ℤ} (h : x.floorLog10 - 17 ≤ p) :
    x.floorAt p < 10 ^ 18 := by
  have hlt : (x.floorAt p : ℚ) < 10 ^ 18 := by
    refine (x.floorAt_le p).trans_lt ?_
    rw [div_lt_iff₀ (by positivity)]
    calc x.magnitude < 10 ^ (x.floorLog10 + 1) := x.floorLog10_spec.1
      _ ≤ 10 ^ ((18 : ℕ) + p) := zpow_le_zpow_right₀ (by norm_num) (by omega)
      _ = 10 ^ 18 * 10 ^ p := by rw [zpow_add₀ (by norm_num), zpow_natCast]
  exact_mod_cast hlt

theorem shortest_spec (x : Binary64) : x.shortest.coefficient ≤ 10 ^ 18 ∧
    -342 ≤ x.shortest.exponent ∧ x.shortest.exponent ≤ 326 ∧ x.shortest.value ≤ x.upperEnd := by
  unfold shortest
  split_ifs with hzero
  · refine ⟨Nat.zero_le _, by decide, by decide, ?_⟩
    rw [Decimal.value, Nat.cast_zero, zero_mul]
    exact x.magnitude_nonneg.trans x.magnitude_le_upperEnd
  · obtain ⟨⟨hlow, hhigh⟩, hcoefficient, hvalue⟩ := x.firstGrid_spec x.floorLog10 17
    obtain ⟨_, _, hbelow, habove⟩ := x.floorLog10_spec
    obtain ⟨hsame, hmore⟩ := Decimal.exponent_strip (x.firstGrid x.floorLog10 17) 17
    have hfloor := x.floorAt_lt (p := (x.firstGrid x.floorLog10 17).exponent) hlow
    have hstrip := Decimal.coefficient_strip_le (x.firstGrid x.floorLog10 17) 17
    rw [Decimal.value_strip]
    exact ⟨by omega, by omega, by omega, hvalue⟩

end Binary64

end StateText
