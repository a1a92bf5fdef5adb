import StateText.Json.Token
import StateText.Proofs.Shortest

/-!
# Scaled significands

A number reader collects a significand and a decimal exponent, and scales the one by the other in
floating-point steps. `exists_floatOfParts` says that the shortest decimal of a binary number is
always scaled to a number, although not always to the same one: the steps stay below the limit.
-/

namespace StateText.Json.Reader

open Binary64 (limit)

/-- The powers of ten that one multiplication or division may take. -/
theorem ten_pow_lt_limit {k : ℕ} (h : k ≤ 308) : (10 : ℚ) ^ k < limit := by
  have hbits : (10 : ℚ) ^ 59 ≤ 2 ^ 196 := by norm_num
  have hrest : (2 : ℚ) ^ 9 * 10 ^ 13 < 2 ^ 53 - 1 / 2 := by norm_num
  have hsplit : ((2 : ℚ) ^ 196) ^ 5 = 2 ^ 9 * 2 ^ (971 : ℤ) := by
    rw [← pow_mul, ← zpow_natCast, ← zpow_natCast 2 9, ← zpow_add₀ two_ne_zero]
    rfl
  calc (10 : ℚ) ^ k ≤ 10 ^ 308 := pow_le_pow_right₀ (by norm_num) h
    _ = (10 ^ 59) ^ 5 * 10 ^ 13 := by rw [← pow_mul, ← pow_add]
    _ ≤ (2 ^ 196) ^ 5 * 10 ^ 13 := by gcongr
    _ = 2 ^ 9 * 10 ^ 13 * 2 ^ (971 : ℤ) := by rw [hsplit, mul_right_comm]
    _ < limit := mul_lt_mul_of_pos_right hrest (by positivity)

theorem exists_powerOfTen {k : ℕ} (h : k ≤ 308) :
    ∃ y, powerOfTen k = some y ∧ 10 ^ k / 2 ≤ y.magnitude ∧
      y.magnitude ≤ 10 ^ k * (1 + 1 / 2 ^ 52) := by
  have hcast : ((Nat.pow 10 k : ℕ) : ℚ) = 10 ^ k := by
    rw [Nat.pow_eq]
    push_cast
    rfl
  obtain ⟨y, hy, herror⟩ := Binary64.exists_ofNat (hcast.trans_lt (ten_pow_lt_limit h))
  rw [hcast] at herror
  obtain ⟨hlow, hhigh⟩ := abs_le.1 herror
  have hpos : (0 : ℚ) < 10 ^ k := by positivity
  refine ⟨y, hy, ?_, ?_⟩
  · linarith
  · linarith

theorem two_pow_le_ten_pow : (2 : ℚ) ^ 68 ≤ 10 ^ 308 :=
  calc (2 : ℚ) ^ 68 ≤ 10 ^ 21 := by norm_num
    _ ≤ 10 ^ 308 := pow_le_pow_right₀ (by norm_num) (by decide)

/-- A division through a power of ten goes nowhere near the limit. -/
theorem exists_quotient {f : Binary64} (hf : f.magnitude ≤ 2 ^ 66) {k : ℕ} (hk : k ≤ 308) :
    ∃ y z, powerOfTen k = some y ∧ f.div y = some z ∧
      z.magnitude ≤ 2 ^ 68 / 10 ^ k + 1 := by
  obtain ⟨y, hy, hlow, _⟩ := exists_powerOfTen hk
  have hten : (1 : ℚ) ≤ 10 ^ k := one_le_pow₀ (by norm_num)
  have hpos : 0 < y.magnitude := by linarith
  have hquotient : f.magnitude / y.magnitude ≤ 2 ^ 67 / 10 ^ k := by
    rw [div_le_div_iff₀ hpos (by linarith)]
    calc f.magnitude * 10 ^ k ≤ 2 ^ 66 * (2 * y.magnitude) := by
          gcongr
          linarith
      _ = 2 ^ 67 * y.magnitude := by ring
  have hless : (2 : ℚ) ^ 67 / 10 ^ k < limit :=
    calc (2 : ℚ) ^ 67 / 10 ^ k ≤ 2 ^ 67 := div_le_self (by positivity) hten
      _ ≤ 2 ^ 68 := pow_le_pow_right₀ one_le_two (by decide)
      _ ≤ 10 ^ 308 := two_pow_le_ten_pow
      _ < limit := ten_pow_lt_limit le_rfl
  obtain ⟨z, hz, hbound⟩ := Binary64.exists_div hpos (hquotient.trans_lt hless)
  refine ⟨y, z, hy, hz, hbound.trans ?_⟩
  rw [pow_succ 2 67, mul_comm _ (2 : ℚ), mul_div_assoc]
  gcongr

theorem exists_scale_of_neg {f : Binary64} (hf : f.magnitude ≤ 2 ^ 66) {exponent : ℤ}
    (he : exponent < 0) (steps : ℕ) : ∃ x, scale f exponent steps = some x := by
  induction steps generalizing f exponent with
  | zero => exact ⟨f, rfl⟩
  | succ steps ih =>
    rw [scale]
    have hneg : ¬ 0 ≤ exponent := by omega
    simp only [if_neg hneg]
    split_ifs with hsmall hzero
    · obtain ⟨y, z, hy, hz, _⟩ := exists_quotient hf hsmall
      rw [hy]
      exact ⟨z, hz⟩
    · exact ⟨f, rfl⟩
    · obtain ⟨y, z, hy, hz, hless⟩ := exists_quotient hf (k := 308) le_rfl
      have hdown : scaleDown f = some z := by rw [scaleDown, hy, Option.bind_some, hz]
      have hone : (2 : ℚ) ^ 68 / 10 ^ 308 ≤ 1 := (div_le_one₀ (by positivity)).2 two_pow_le_ten_pow
      rw [hdown, Option.bind_some]
      refine ih (hless.trans ?_) (by omega)
      calc (2 : ℚ) ^ 68 / 10 ^ 308 + 1 ≤ 1 + 1 := add_le_add hone le_rfl
        _ ≤ 2 ^ 66 := by norm_num

/-- Four and a half steps above which two roundings may lead to the limit. -/
def ceiling : ℚ := (2 ^ 53 - 9 / 2) * 2 ^ (971 : ℤ)

theorem ceiling_le_ten_pow : ceiling < 10 ^ 309 := by
  have hbits : (2 : ℚ) ^ 93 ≤ 10 ^ 28 := by norm_num
  have hsplit : (2 : ℚ) ^ 53 * 2 ^ (971 : ℤ) = (2 ^ 93) ^ 11 * 2 := by
    rw [← pow_mul, ← pow_succ, ← zpow_natCast, ← zpow_natCast, ← zpow_add₀ two_ne_zero]
    rfl
  calc ceiling < 2 ^ 53 * 2 ^ (971 : ℤ) :=
        mul_lt_mul_of_pos_right (by norm_num) (by positivity)
    _ = (2 ^ 93) ^ 11 * 2 := hsplit
    _ ≤ (10 ^ 28) ^ 11 * 10 := by
        gcongr
        norm_num
    _ = 10 ^ 309 := by rw [← pow_mul, ← pow_succ]

theorem exists_scale_of_le {f : Binary64} {c : ℕ} (hf : f.magnitude ≤ c * (1 + 1 / 2 ^ 52)) {k : ℕ}
    (h : (c : ℚ) * 10 ^ k ≤ ceiling) (steps : ℕ) : ∃ x, scale f k (steps + 1) = some x := by
  have hnonneg : (0 : ℤ) ≤ k := Int.natCast_nonneg k
  rw [scale, Int.natAbs_natCast]
  simp only [if_pos hnonneg]
  split_ifs with hsmall hzero
  · obtain ⟨y, hy, _, hhigh⟩ := exists_powerOfTen hsmall
    have hroom :
        ((2 : ℚ) ^ 53 - 9 / 2) * ((1 + 1 / 2 ^ 52) * (1 + 1 / 2 ^ 52)) < 2 ^ 53 - 1 / 2 := by
      norm_num
    have hproduct : f.magnitude * y.magnitude < limit :=
      calc f.magnitude * y.magnitude
          ≤ c * (1 + 1 / 2 ^ 52) * (10 ^ k * (1 + 1 / 2 ^ 52)) :=
            mul_le_mul hf hhigh y.magnitude_nonneg (by positivity)
        _ = c * 10 ^ k * ((1 + 1 / 2 ^ 52) * (1 + 1 / 2 ^ 52)) := by ring
        _ ≤ ceiling * ((1 + 1 / 2 ^ 52) * (1 + 1 / 2 ^ 52)) :=
            mul_le_mul_of_nonneg_right h (by positivity)
        _ = (2 ^ 53 - 9 / 2) * ((1 + 1 / 2 ^ 52) * (1 + 1 / 2 ^ 52)) * 2 ^ (971 : ℤ) := by
            rw [ceiling, mul_right_comm]
        _ < limit := mul_lt_mul_of_pos_right hroom (by positivity)
    obtain ⟨z, hz⟩ := Binary64.exists_mul hproduct
    rw [hy]
    exact ⟨z, hz⟩
  · exact ⟨f, rfl⟩
  · exfalso
    -- a significand other than zero is too large for the exponent
    have hc : c ≠ 0 := by
      rintro rfl
      rw [Nat.cast_zero, zero_mul] at hf
      have hsig : f.significand ≠ 0 := fun h0 => hzero (by rw [Binary64.isZero, h0]; rfl)
      exact absurd (Binary64.magnitude_pos_iff.2 hsig) (not_lt.2 hf)
    have hone : (1 : ℚ) ≤ c := by exact_mod_cast Nat.one_le_iff_ne_zero.2 hc
    have hlarge : (10 : ℚ) ^ 309 ≤ c * 10 ^ k :=
      calc (10 : ℚ) ^ 309 ≤ 10 ^ k := pow_le_pow_right₀ (by norm_num) (by omega)
        _ ≤ c * 10 ^ k := le_mul_of_one_le_left (by positivity) hone
    exact absurd (hlarge.trans h) (not_le.2 ceiling_le_ten_pow)

theorem exists_floatOfParts (negative : Bool) {c : ℕ} (hc : c < 2 ^ 64) {p : ℤ}
    (h : p < 0 ∨ (c : ℚ) * 10 ^ p ≤ ceiling) :
    ∃ y, floatOfParts? negative c p = some (.float y) := by
  have hcast : (c : ℚ) ≤ 2 ^ 64 := by exact_mod_cast hc.le
  have hlimit : (c : ℚ) < limit :=
    calc (c : ℚ) ≤ 2 ^ 64 := hcast
      _ ≤ 2 ^ 68 := pow_le_pow_right₀ one_le_two (by decide)
      _ ≤ 10 ^ 308 := two_pow_le_ten_pow
      _ < limit := ten_pow_lt_limit le_rfl
  obtain ⟨f, hf, herror⟩ := Binary64.exists_ofNat hlimit
  have hbound : f.magnitude ≤ c * (1 + 1 / 2 ^ 52) := by
    have := (abs_le.1 herror).2
    linarith
  have hscale : ∃ x, scale f p 4 = some x := by
    by_cases hp : p < 0
    · refine exists_scale_of_neg ?_ hp 4
      calc f.magnitude ≤ c * (1 + 1 / 2 ^ 52) := hbound
        _ ≤ 2 ^ 64 * (1 + 1 / 2 ^ 52) := by gcongr
        _ ≤ 2 ^ 66 := by norm_num
    · obtain ⟨k, rfl⟩ := Int.eq_ofNat_of_zero_le (not_lt.1 hp)
      refine exists_scale_of_le hbound ?_ 3
      rw [← zpow_natCast]
      exact h.resolve_left hp
  obtain ⟨x, hx⟩ := hscale
  refine ⟨if negative then x.neg else x, ?_⟩
  rw [floatOfParts?, hf, Option.bind_some, hx]

theorem exists_float_of_isSome {negative : Bool} {c : ℕ} {p : ℤ}
    (h : (floatOfParts? negative c p).isSome) :
    ∃ y, floatOfParts? negative c p = some (.float y) := by
  unfold floatOfParts? at h ⊢
  split at h
  · cases h
  next => exact ⟨_, rfl⟩

/-- The four largest significands leave no room for two errors of rounding, but do not need it. -/
theorem floatOfParts_largest : ∀ sign negative, ∀ k < 4,
    (Binary64.ofParts? sign (Nat.pow 2 53 - 1 - k) 971).all fun x =>
      (floatOfParts? negative x.shortest.coefficient x.shortest.exponent).isSome := by
  decide +kernel

theorem upperEnd_le_ceiling {x : Binary64} (h : x.exponent < 971 ∨ x.significand + 4 < 2 ^ 53) :
    x.upperEnd ≤ ceiling := by
  obtain ⟨hbits, _, htop, _⟩ := x.canonical
  unfold Binary64.upperEnd ceiling
  rcases h with hexp | hsig
  · have hhalf : (x.significand : ℚ) + 1 / 2 ≤ 2 ^ 53 := by
      have : (x.significand : ℚ) + 1 ≤ 2 ^ 53 := by exact_mod_cast hbits
      linarith
    calc ((x.significand : ℚ) + 1 / 2) * 2 ^ x.exponent ≤ 2 ^ 53 * 2 ^ (970 : ℤ) :=
          mul_le_mul hhalf (zpow_le_zpow_right₀ one_le_two (by omega)) (by positivity)
            (by positivity)
      _ = 2 ^ 52 * 2 ^ (971 : ℤ) := by
          rw [pow_succ, mul_assoc, ← zpow_one_add₀ two_ne_zero]
          rfl
      _ ≤ (2 ^ 53 - 9 / 2) * 2 ^ (971 : ℤ) :=
          mul_le_mul_of_nonneg_right (by norm_num) (by positivity)
  · have hbelow : (x.significand : ℚ) + 1 / 2 ≤ 2 ^ 53 - 9 / 2 := by
      have : (x.significand : ℚ) + 4 + 1 ≤ 2 ^ 53 := by exact_mod_cast hsig
      linarith
    exact mul_le_mul hbelow (zpow_le_zpow_right₀ one_le_two htop) (by positivity) (by norm_num)

/-- The shortest decimal of a number is scaled to a number. -/
theorem exists_floatOfParts_shortest (negative : Bool) (x : Binary64) :
    ∃ y, floatOfParts? negative x.shortest.coefficient x.shortest.exponent = some (.float y) := by
  obtain ⟨hcoefficient, _, _, hvalue⟩ := x.shortest_spec
  have hc : x.shortest.coefficient < 2 ^ 64 := hcoefficient.trans_lt (by norm_num)
  by_cases hroom : x.exponent < 971 ∨ x.significand + 4 < 2 ^ 53
  · exact exists_floatOfParts negative hc (.inr (hvalue.trans (upperEnd_le_ceiling hroom)))
  · obtain ⟨hexp, hsig⟩ := not_or.1 hroom
    obtain ⟨hbits, _, htop, _⟩ := x.canonical
    rw [Nat.pow_eq] at hbits
    have hx : Binary64.ofParts? x.negative (Nat.pow 2 53 - 1 - (2 ^ 53 - 1 - x.significand)) 971 =
        some x := by
      rw [Nat.pow_eq, show 2 ^ 53 - 1 - (2 ^ 53 - 1 - x.significand) = x.significand by omega,
        show (971 : ℤ) = x.exponent by omega, Binary64.ofParts?, dif_pos x.canonical]
    have hall := floatOfParts_largest x.negative negative (2 ^ 53 - 1 - x.significand) (by omega)
    rw [hx, Option.all_some] at hall
    exact exists_float_of_isSome hall

end StateText.Json.Reader
