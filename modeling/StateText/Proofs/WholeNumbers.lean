import Mathlib.Algebra.Order.Floor.Semifield
import Mathlib.Data.Nat.Cast.Field
import StateText.Proofs.Ends
import StateText.Proofs.Shortest
import StateText.Value.Literal

/-!
# Whole numbers

A whole floating-point number below `exponentLimit` has its own digits as its shortest decimal: on
every coarser grid it is the only number that rounds to it, and on the grid of whole numbers it is
the nearest. Its text as a number of a document is that of its digits with `.0` behind them, which
its literal has too from `wholeLimit` on.
-/

namespace StateText

/-- From here on floating-point numbers are written with an exponent. -/
def Number.exponentLimit : ℕ := Nat.pow 10 16

namespace Binary64

open Decimal (compareBinary compareBinary_eq_lt_iff compareBinary_eq_gt_iff)

variable {x : Binary64} {n : ℕ}

/-- What rounds to a number is at most half a step away from it. -/
theorem abs_sub_magnitude_le_of_rounds {c : ℕ} {p : ℤ} (h : x.rounds c p = true) :
    |(c : ℚ) * 10 ^ p - x.magnitude| ≤ 2 ^ x.exponent / 2 := by
  have hhigh := le_upperEnd_of_rounds h
  have hlow : (4 * x.significand - x.gapBelow : ℕ) * (2 : ℚ) ^ (x.exponent - 2) ≤ c * 10 ^ p := by
    rw [← not_lt, ← compareBinary_eq_lt_iff]
    intro hlt
    unfold rounds at h
    dsimp only at h
    rw [hlt] at h
    split_ifs at h <;> simp at h
  have hgap : (4 : ℚ) * x.significand - 2 ≤ (4 * x.significand - x.gapBelow : ℕ) := by
    have hle : 4 * x.significand ≤ 4 * x.significand - x.gapBelow + 2 := by
      unfold gapBelow
      split_ifs <;> omega
    have hcast : (4 * x.significand : ℚ) ≤ (4 * x.significand - x.gapBelow : ℕ) + 2 := by
      exact_mod_cast hle
    linarith
  have hstep : (2 : ℚ) ^ (x.exponent - 2) = 2 ^ x.exponent / 4 := by
    rw [zpow_sub₀ two_ne_zero]
    norm_num
  have hpos : (0 : ℚ) < 2 ^ x.exponent := by positivity
  rw [hstep] at hlow
  unfold upperEnd at hhigh
  unfold magnitude
  rw [abs_le]
  constructor
  · nlinarith
  · linarith

/-- A number rounds to itself. -/
theorem rounds_of_eq_magnitude (hx : x.significand ≠ 0) {c : ℕ} {p : ℤ}
    (h : (c : ℚ) * 10 ^ p = x.magnitude) : x.rounds c p = true := by
  have hpos : (0 : ℚ) < 2 ^ (x.exponent - 2) := by positivity
  have hmagnitude : x.magnitude = (4 * x.significand : ℕ) * (2 : ℚ) ^ (x.exponent - 2) := by
    rw [magnitude, zpow_sub₀ two_ne_zero]
    push_cast
    ring
  have hgap : 4 * x.significand - x.gapBelow < 4 * x.significand := by
    unfold gapBelow
    split_ifs <;> omega
  have hlow : compareBinary c p (4 * x.significand - x.gapBelow) (x.exponent - 2) = .gt := by
    rw [compareBinary_eq_gt_iff, h, hmagnitude, mul_lt_mul_iff_left₀ hpos, Nat.cast_lt]
    exact hgap
  have hhigh : compareBinary c p (4 * x.significand + 2) (x.exponent - 2) = .lt := by
    rw [compareBinary_eq_lt_iff, h, hmagnitude, mul_lt_mul_iff_left₀ hpos, Nat.cast_lt]
    omega
  unfold rounds
  rw [hlow, hhigh]
  simp

theorem magnitude_of_whole? (h : x.whole? = some n) : x.magnitude = n := by
  unfold whole? at h
  dsimp only at h
  split_ifs at h with hmod
  have hdvd : (ratio x.significand x.exponent).2 ∣ (ratio x.significand x.exponent).1 :=
    Nat.dvd_of_mod_eq_zero hmod
  have hne : ((ratio x.significand x.exponent).2 : ℚ) ≠ 0 := by
    exact_mod_cast (ratio_pos x.significand x.exponent).ne'
  rw [magnitude, ← quotient_ratio, ← Option.some.inj h, Nat.cast_div hdvd hne]

theorem floorAt_eq_floor (x : Binary64) (p : ℤ) : x.floorAt p = ⌊x.magnitude / 10 ^ p⌋₊ := by
  rw [floorAt, ← Nat.floor_div_eq_div (K := ℚ), quotient_floorAt]

theorem floorAt_zero (h : x.magnitude = n) : x.floorAt 0 = n := by
  rw [floorAt_eq_floor, zpow_zero, div_one, h, Nat.floor_natCast]

/-- Below the limit, neighbours are not further away than even numbers. -/
theorem exponent_le_one (h : x.magnitude = n) (hn : n < Number.exponentLimit) :
    x.exponent ≤ 1 := by
  by_contra hlarge
  have hsig : Nat.pow 2 52 ≤ x.significand := x.canonical.2.2.2.resolve_right (by omega)
  have hmagnitude : (2 : ℚ) ^ 54 ≤ x.magnitude := by
    have hcast : (2 : ℚ) ^ 52 ≤ x.significand := by exact_mod_cast hsig
    have hstep : (2 : ℚ) ^ (2 : ℤ) ≤ 2 ^ x.exponent := zpow_le_zpow_right₀ one_le_two (by omega)
    calc (2 : ℚ) ^ 54 = 2 ^ 52 * 2 ^ (2 : ℤ) := by norm_num
      _ ≤ (x.significand : ℚ) * 2 ^ x.exponent :=
        mul_le_mul hcast hstep (by positivity) (by positivity)
  rw [h] at hmagnitude
  have hle : 2 ^ 54 ≤ n := by exact_mod_cast hmagnitude
  exact absurd (hle.trans_lt hn) (by decide)

/-- On the coarser grids no other number rounds to a whole number. -/
theorem value_eq_of_rounds (h : x.magnitude = n) (hn : n < Number.exponentLimit) {c : ℕ} {p : ℤ}
    (hp : 0 < p) (hc : x.rounds c p = true) : (c : ℚ) * 10 ^ p = n := by
  obtain ⟨k, rfl⟩ : ∃ k : ℕ, p = k + 1 := ⟨(p - 1).toNat, by omega⟩
  have hwhole : (c : ℚ) * 10 ^ ((k : ℤ) + 1) = ((10 * (c * 10 ^ k) : ℕ) : ℤ) := by
    rw [zpow_add_one₀ (by norm_num), zpow_natCast]
    push_cast
    ring
  have hdist := abs_sub_magnitude_le_of_rounds hc
  rw [h, hwhole] at hdist
  rw [hwhole]
  set m := c * 10 ^ k
  have hexponent := exponent_le_one h hn
  have heq : 10 * m = n := by
    by_cases hone : x.exponent = 1
    · -- both are even, and at most one apart
      have heven : n = x.significand * 2 := by
        rw [magnitude, hone, zpow_one] at h
        exact_mod_cast h.symm
      have hle : |((10 * m : ℕ) : ℤ) - (n : ℤ)| ≤ 1 := by
        rw [hone, zpow_one, div_self two_ne_zero] at hdist
        exact_mod_cast hdist
      rw [abs_le] at hle
      omega
    · have hstep : (2 : ℚ) ^ x.exponent ≤ 1 := zpow_le_one_of_nonpos₀ one_le_two (by omega)
      have hlt : |((10 * m : ℕ) : ℤ) - (n : ℤ)| < 1 := by
        have hless : |(((10 * m : ℕ) : ℤ) : ℚ) - ((n : ℤ) : ℚ)| < 1 := by
          refine lt_of_le_of_lt (by exact_mod_cast hdist) ?_
          linarith
        exact_mod_cast hless
      rw [Int.abs_lt_one_iff] at hlt
      omega
  rw [heq]
  rfl

/-- On the grid of whole numbers a whole number is the nearest to itself. -/
theorem onGrid?_zero (hx : x.significand ≠ 0) (h : x.magnitude = n) :
    x.onGrid? 0 = some ⟨n, 0⟩ := by
  have hrounds : x.rounds n 0 = true := rounds_of_eq_magnitude hx (by rw [zpow_zero, mul_one, h])
  have hbelow : compareBinary (2 * n + 1) 0 (2 * x.significand) x.exponent = .gt := by
    rw [compareBinary_eq_gt_iff, Nat.cast_mul, mul_assoc, ← magnitude, h, zpow_zero, mul_one]
    exact_mod_cast Nat.lt_succ_self (2 * n)
  unfold onGrid?
  rw [floorAt_zero h]
  dsimp only
  rw [hrounds, hbelow]
  cases x.rounds (n + 1) 0 <;> rfl

/-- The search stops at the grid of whole numbers at the latest. -/
theorem firstGrid_whole (hx : x.significand ≠ 0) (h : x.magnitude = n)
    (hn : n < Number.exponentLimit) {p : ℤ} (hp : 0 ≤ p) (fuel : ℕ) (hfuel : p < fuel) :
    0 ≤ (x.firstGrid p fuel).exponent ∧ (x.firstGrid p fuel).value = n := by
  induction fuel generalizing p with
  | zero => omega
  | succ fuel ih =>
    rw [firstGrid]
    by_cases hzero : p = 0
    · rw [hzero, onGrid?_zero hx h]
      exact ⟨le_rfl, by rw [Decimal.value, zpow_zero, mul_one]⟩
    · cases hgrid : x.onGrid? p with
      | some d =>
        obtain ⟨rfl, _, hrounds⟩ := onGrid?_eq_some hgrid
        have hcoarse : 0 < d.exponent := lt_of_le_of_ne hp (Ne.symm hzero)
        exact ⟨hp, value_eq_of_rounds h hn hcoarse hrounds⟩
      | none => exact ih (by omega) (by omega)

theorem floorLog10_whole (hx : x.significand ≠ 0) (h : x.magnitude = n)
    (hn : n < Number.exponentLimit) : 0 ≤ x.floorLog10 ∧ x.floorLog10 < 16 := by
  obtain ⟨habove, hbelow, _⟩ := x.floorLog10_spec
  have hpos : 0 < x.magnitude := magnitude_pos_iff.2 hx
  have hone : (1 : ℚ) ≤ x.magnitude := by
    rw [h, Nat.cast_pos] at hpos
    rw [h]
    exact_mod_cast hpos
  have hlimit : x.magnitude < 10 ^ (16 : ℤ) := by
    rw [h]
    exact_mod_cast hn
  constructor
  · by_contra hneg
    have hle : (10 : ℚ) ^ (x.floorLog10 + 1) ≤ 1 :=
      zpow_le_one_of_nonpos₀ (by norm_num) (by omega)
    linarith
  · have hlt : (10 : ℚ) ^ x.floorLog10 < 10 ^ (16 : ℤ) := (hbelow hx).trans_lt hlimit
    exact (zpow_lt_zpow_iff_right₀ (by norm_num)).1 hlt

/-- The shortest decimal of a whole number below the limit has no fraction. -/
theorem shortest_whole (hx : x.significand ≠ 0) (h : x.magnitude = n)
    (hn : n < Number.exponentLimit) : 0 ≤ x.shortest.exponent ∧ x.shortest.value = n := by
  obtain ⟨hlow, hhigh⟩ := floorLog10_whole hx h hn
  obtain ⟨hexponent, hvalue⟩ := firstGrid_whole hx h hn hlow 17 (by omega)
  have hstrip := (Decimal.exponent_strip (x.firstGrid x.floorLog10 17) 17).1
  rw [shortest, if_neg hx, Decimal.value_strip]
  exact ⟨hexponent.trans hstrip, hvalue⟩

end Binary64

namespace Decimal

/-- A factor of ten is a zero at the end. -/
theorem toDigits_mul_ten_pow {c : ℕ} (hc : c ≠ 0) (k : ℕ) :
    Nat.toDigits 10 (c * 10 ^ k) = Nat.toDigits 10 c ++ List.replicate k '0' := by
  induction k with
  | zero => simp
  | succ k ih =>
    have hpos : 0 < c * 10 ^ k := Nat.mul_pos (Nat.pos_of_ne_zero hc) (Nat.pow_pos (by decide))
    have hstep : c * 10 ^ (k + 1) = 10 * (c * 10 ^ k) + 0 := by ring
    rw [hstep, ← Nat.toDigits_append_toDigits (by decide) hpos (by decide), ih, List.append_assoc,
      List.replicate_succ']
    rfl

/-- A decimal without a fraction is written with the digits of its value. -/
theorem write_whole {d : Decimal} {n : ℕ} (hd : 0 ≤ d.exponent) (hvalue : d.value = n)
    (hpos : n ≠ 0) (hn : n < Number.exponentLimit) :
    Number.layout.write d = Nat.toDigits 10 n ++ ['.', '0'] := by
  obtain ⟨c, e⟩ := d
  obtain ⟨k, rfl⟩ := Int.eq_ofNat_of_zero_le hd
  have heq : c * 10 ^ k = n := by
    rw [value, zpow_natCast] at hvalue
    exact_mod_cast hvalue
  have hc : c ≠ 0 := by
    rintro rfl
    exact hpos (by rw [← heq, Nat.zero_mul])
  have hdigits : Nat.toDigits 10 n = Nat.toDigits 10 c ++ List.replicate k '0' := by
    rw [← heq, toDigits_mul_ten_pow hc]
  have hlength : (Nat.toDigits 10 n).length ≤ 16 :=
    (Nat.length_toDigits_le_iff (by decide) (by decide)).2 hn
  have hfirst : 0 < (Nat.toDigits 10 c).length := Nat.length_toDigits_pos
  rw [hdigits, List.length_append, List.length_replicate] at hlength
  have hleading : leading ⟨c, k⟩ = k + (Nat.toDigits 10 c).length - 1 := rfl
  have hbounds : Number.layout.lowest ≤ leading ⟨c, k⟩ ∧
      leading ⟨c, k⟩ < Number.layout.below := by
    rw [hleading]
    change (-5 : ℤ) ≤ _ ∧ _ < (16 : ℤ)
    omega
  have hpoint : ¬ leading ⟨c, k⟩ + 1 ≤ 0 := by omega
  have hlong : (digits ⟨c, k⟩).length ≤ (leading ⟨c, k⟩ + 1).toNat := by
    change (Nat.toDigits 10 c).length ≤ _
    omega
  have hzeros : (leading ⟨c, k⟩ + 1).toNat - (digits ⟨c, k⟩).length = k := by
    change _ - (Nat.toDigits 10 c).length = k
    omega
  change Layout.write Number.layout ⟨c, k⟩ = _
  rw [Layout.write, if_pos hbounds, positional, if_neg hpoint, if_pos hlong, hzeros, hdigits]
  rfl

end Decimal

namespace Number

/-- The text of a whole floating-point number that needs no exponent has a fraction. -/
theorem text_whole {x : Binary64} {n : ℕ} (h : x.whole? = some n) (hn : n < exponentLimit) :
    (float x).text = signed x.negative (Nat.toDigits 10 n ++ ['.', '0']) := by
  have hmagnitude := Binary64.magnitude_of_whole? h
  have hwrite : layout.write x.shortest = Nat.toDigits 10 n ++ ['.', '0'] := by
    by_cases hx : x.significand = 0
    · have hzero : n = 0 := by
        rw [Binary64.magnitude, hx, Nat.cast_zero, zero_mul] at hmagnitude
        exact_mod_cast hmagnitude.symm
      rw [Binary64.shortest, if_pos hx, hzero]
      decide
    · have hpos : n ≠ 0 := by
        rintro rfl
        exact (Binary64.magnitude_pos_iff.2 hx).ne' (hmagnitude.trans Nat.cast_zero)
      obtain ⟨hexponent, hvalue⟩ := Binary64.shortest_whole hx hmagnitude hn
      exact Decimal.write_whole hexponent hvalue hpos hn
  rw [text, hwrite]

/-- The literal of a small one has none. -/
theorem literal_whole {x : Binary64} {n : ℕ} (h : x.whole? = some n)
    (hn : n < Literal.wholeLimit) :
    Literal.number (float x) = signed x.negative (Nat.toDigits 10 n) := by
  rw [Literal.number, h]
  exact if_pos hn

/-- The literal of any other one is its text. -/
theorem literal_large {x : Binary64} {n : ℕ} (h : x.whole? = some n)
    (hn : ¬ n < Literal.wholeLimit) : Literal.number (float x) = (float x).text := by
  rw [Literal.number, h]
  exact if_neg hn

def fraction : Number → List Char
  | float x =>
    match x.whole? with
    | some n => if n < Literal.wholeLimit then ['.', '0'] else []
    | none => []
  | _ => []

theorem text_eq_literal_append (n : Number) : n.text = Literal.number n ++ n.fraction := by
  cases n with
  | natural n bounded => exact (List.append_nil _).symm
  | negative n bounded => exact (List.append_nil _).symm
  | float x =>
    unfold fraction
    dsimp only
    cases hwhole : x.whole? with
    | none => simp only [Literal.number, hwhole, List.append_nil]
    | some n =>
      dsimp only
      split_ifs with hn
      · rw [text_whole hwhole (hn.trans (by decide)), literal_whole hwhole hn]
        cases x.negative <;> rfl
      · rw [literal_large hwhole hn, List.append_nil]

end Number

end StateText
