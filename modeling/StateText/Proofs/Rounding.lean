import Mathlib.Data.Rat.Floor
import Mathlib.Tactic.FieldSimp
import Mathlib.Tactic.Linarith
import Mathlib.Tactic.NormNum.Pow
import Mathlib.Algebra.Order.Field.Power
import Mathlib.Tactic.Positivity
import StateText.Number.Binary64

/-!
# Rounded results

`magnitude` is the number that a binary number stands for, without its sign. What an operation
gives is near the exact result: `exists_ofRatio` bounds the distance, and says that there is a
result unless the exact one lies beyond `limit`.
-/

namespace StateText.Binary64

def magnitude (x : Binary64) : ℚ := x.significand * 2 ^ x.exponent

theorem magnitude_nonneg (x : Binary64) : 0 ≤ x.magnitude := by
  unfold magnitude
  positivity

theorem magnitude_pos_iff {x : Binary64} : 0 < x.magnitude ↔ x.significand ≠ 0 := by
  rw [magnitude, mul_pos_iff_of_pos_right (zpow_pos two_pos _), Nat.cast_pos, Nat.pos_iff_ne_zero]

theorem two_zpow_toNat {e : ℤ} (h : 0 ≤ e) : (2 : ℚ) ^ e.toNat = 2 ^ e := by
  rw [← zpow_natCast, Int.toNat_of_nonneg h]

theorem quotient_ratio (m : ℕ) (e : ℤ) :
    ((ratio m e).1 : ℚ) / (ratio m e).2 = m * 2 ^ e := by
  unfold ratio
  split_ifs with h
  · simp [two_zpow_toNat h]
  · have hneg : 0 ≤ -e := by omega
    simp [two_zpow_toNat hneg, zpow_neg, div_eq_mul_inv]

theorem ratio_pos (m : ℕ) (e : ℤ) : 0 < (ratio m e).2 := by
  unfold ratio
  split_ifs
  · exact Nat.one_pos
  · exact Nat.pow_pos Nat.two_pos

theorem quotient_scaled (num den : ℕ) (e : ℤ) :
    ((scaled num den e).1 : ℚ) / (scaled num den e).2 = num / den / 2 ^ e := by
  unfold scaled
  split_ifs with h
  · simp [two_zpow_toNat h, div_div]
  · have hneg : 0 ≤ -e := by omega
    simp [two_zpow_toNat hneg, zpow_neg, div_eq_mul_inv]
    ring

theorem scaled_pos (num : ℕ) {den : ℕ} (h : 0 < den) (e : ℤ) : 0 < (scaled num den e).2 := by
  unfold scaled
  split_ifs
  · exact Nat.mul_pos h (Nat.pow_pos Nat.two_pos)
  · exact h


/-! ### The binary exponent -/

theorem scaled_le_iff (num : ℕ) {den : ℕ} (hd : 0 < den) (e : ℤ) :
    (scaled num den e).2 ≤ (scaled num den e).1 ↔ (2 : ℚ) ^ e ≤ num / den := by
  have hpos : (0 : ℚ) < (scaled num den e).2 := by exact_mod_cast scaled_pos num hd e
  rw [← one_le_div₀ (zpow_pos two_pos e), ← quotient_scaled, one_le_div₀ hpos, Nat.cast_le]

theorem floorLog2_spec {num den : ℕ} (hn : 0 < num) (hd : 0 < den) :
    (2 : ℚ) ^ floorLog2 num den ≤ num / den ∧ (num : ℚ) / den < 2 ^ (floorLog2 num den + 1) := by
  have hden : (0 : ℚ) < den := by exact_mod_cast hd
  have hlog {n : ℕ} (h : 0 < n) :
      (2 : ℚ) ^ (n.log2 : ℤ) ≤ n ∧ (n : ℚ) < 2 ^ ((n.log2 : ℤ) + 1) := by
    have hlow := Nat.log2_self_le h.ne'
    have hhigh := Nat.lt_log2_self (n := n)
    exact ⟨by exact_mod_cast hlow, by exact_mod_cast hhigh⟩
  -- the estimate from the lengths of the two numbers is too large by one at most
  have hlow : (2 : ℚ) ^ ((num.log2 : ℤ) - den.log2 - 1) ≤ num / den := by
    rw [le_div_iff₀ hden]
    calc (2 : ℚ) ^ ((num.log2 : ℤ) - den.log2 - 1) * den
        ≤ 2 ^ ((num.log2 : ℤ) - den.log2 - 1) * 2 ^ ((den.log2 : ℤ) + 1) := by
          gcongr
          exact (hlog hd).2.le
      _ = 2 ^ (num.log2 : ℤ) := by
          rw [← zpow_add₀ two_ne_zero]
          congr 1
          omega
      _ ≤ num := (hlog hn).1
  have hhigh : (num : ℚ) / den < 2 ^ ((num.log2 : ℤ) - den.log2 + 1) := by
    rw [div_lt_iff₀ hden]
    calc (num : ℚ) < 2 ^ ((num.log2 : ℤ) + 1) := (hlog hn).2
      _ = 2 ^ ((num.log2 : ℤ) - den.log2 + 1) * 2 ^ (den.log2 : ℤ) := by
          rw [← zpow_add₀ two_ne_zero]
          congr 1
          omega
      _ ≤ 2 ^ ((num.log2 : ℤ) - den.log2 + 1) * den := by
          gcongr
          exact (hlog hd).1
  unfold floorLog2
  dsimp only
  split_ifs with h
  · exact ⟨(scaled_le_iff num hd _).1 h, hhigh⟩
  · rw [scaled_le_iff num hd, not_le] at h
    exact ⟨hlow, by rwa [Int.sub_add_cancel]⟩

/-! ### Rounding -/

theorem abs_roundQuotient_sub_le (num : ℕ) {den : ℕ} (hd : 0 < den) :
    |(roundQuotient num den : ℚ) - num / den| ≤ 1 / 2 := by
  have hden : (0 : ℚ) < den := by exact_mod_cast hd
  have hmod := Nat.mod_lt num hd
  have hquotient : (num : ℚ) / den = (num / den : ℕ) + (num % den : ℕ) / (den : ℚ) := by
    rw [div_eq_iff hden.ne', add_mul, div_mul_cancel₀ _ hden.ne']
    exact_mod_cast (Nat.div_add_mod' num den).symm
  have hcast {a b : ℕ} (h : a ≤ b) : (a : ℚ) ≤ b := by exact_mod_cast h
  have hhalf : 2 * (num % den : ℕ) ≤ den → ((num % den : ℕ) : ℚ) / den ≤ 1 / 2 := by
    intro h
    rw [div_le_iff₀ hden]
    have := hcast h
    push_cast at this
    linarith
  have hhalf' : den ≤ 2 * (num % den : ℕ) → 1 / 2 ≤ ((num % den : ℕ) : ℚ) / den := by
    intro h
    rw [le_div_iff₀ hden]
    have := hcast h
    push_cast at this
    linarith
  have hlow : (0 : ℚ) ≤ (num % den : ℕ) / (den : ℚ) := by positivity
  have hhigh : ((num % den : ℕ) : ℚ) / den ≤ 1 := by
    rw [div_le_one₀ hden]
    exact hcast hmod.le
  rw [hquotient, abs_le]
  unfold roundQuotient
  dsimp only
  split_ifs with hless hmore
  · have := hhalf hless.le
    constructor <;> linarith
  · have := hhalf' hmore.le
    push_cast
    constructor <;> linarith
  · have hle := hhalf (by omega)
    have hge := hhalf' (by omega)
    rcases Nat.mod_two_eq_zero_or_one (num / den) with h | h <;> rw [h] <;> push_cast <;>
      constructor <;> linarith

/-- Half a step above the largest number. -/
def limit : ℚ := (2 ^ 53 - 1 / 2) * 2 ^ (971 : ℤ)

theorem limit_lt : limit < 2 ^ (1024 : ℤ) := by
  have hpos : (0 : ℚ) < 2 ^ (971 : ℤ) := by positivity
  calc limit < 2 ^ 53 * 2 ^ (971 : ℤ) := mul_lt_mul_of_pos_right (by norm_num) hpos
    _ = 2 ^ (1024 : ℤ) := by rw [← zpow_natCast, ← zpow_add₀ two_ne_zero]; rfl

section Step

variable {num den : ℕ}

/-- The exponent of a result, whose significand has 53 bits unless that exponent is the least. -/
def resultExponent (num den : ℕ) : ℤ := max (floorLog2 num den - 52) (-1074)

theorem quotient_lt (hn : 0 < num) (hd : 0 < den) :
    (num : ℚ) / den / 2 ^ resultExponent num den < 2 ^ 53 := by
  rw [div_lt_iff₀ (zpow_pos two_pos _), ← zpow_natCast, ← zpow_add₀ two_ne_zero]
  refine (floorLog2_spec hn hd).2.trans_le (zpow_le_zpow_right₀ one_le_two ?_)
  have := le_max_left (floorLog2 num den - 52) (-1074)
  unfold resultExponent
  omega

theorem step_le (hn : 0 < num) (hd : 0 < den) :
    (2 : ℚ) ^ resultExponent num den ≤ num / den / 2 ^ 52 + 2 ^ (-1074 : ℤ) := by
  have hq : (0 : ℚ) ≤ num / den := by positivity
  rcases max_choice (floorLog2 num den - 52) (-1074) with h | h <;> rw [resultExponent, h]
  · have hlow : (2 : ℚ) ^ (floorLog2 num den - 52) ≤ num / den / 2 ^ 52 := by
      rw [zpow_sub₀ two_ne_zero]
      exact div_le_div_of_nonneg_right (floorLog2_spec hn hd).1 (by positivity)
    have : (0 : ℚ) ≤ 2 ^ (-1074 : ℤ) := by positivity
    linarith
  · have : (0 : ℚ) ≤ num / den / 2 ^ 52 := by positivity
    linarith

theorem le_quotient (hn : 0 < num) (hd : 0 < den) (h : resultExponent num den ≠ -1074) :
    (2 : ℚ) ^ 52 ≤ num / den / 2 ^ resultExponent num den := by
  have he : resultExponent num den = floorLog2 num den - 52 :=
    (max_choice _ _).resolve_right h
  have hsum : ((52 : ℕ) : ℤ) + (floorLog2 num den - 52) = floorLog2 num den := by omega
  rw [he, le_div_iff₀ (zpow_pos two_pos _), ← zpow_natCast, ← zpow_add₀ two_ne_zero, hsum]
  exact (floorLog2_spec hn hd).1

theorem resultExponent_le (hn : 0 < num) (hd : 0 < den) (h : (num : ℚ) / den < limit) :
    resultExponent num den ≤ 971 := by
  have hlog := (zpow_lt_zpow_iff_right₀ (one_lt_two (α := ℚ))).1
    ((floorLog2_spec hn hd).1.trans_lt (h.trans limit_lt))
  exact max_le (by omega) (by decide)

end Step

theorem exists_ofParts (negative : Bool) {m : ℕ} {e : ℤ} (h : Canonical m e) :
    ∃ x, ofParts? negative m e = some x ∧ x.negative = negative ∧ x.magnitude = m * 2 ^ e := by
  rw [ofParts?, dif_pos h]
  exact ⟨_, rfl, rfl, rfl⟩

/-- A quotient below the limit has a nearest number, half a step away at most. -/
theorem exists_ofRatio (negative : Bool) (num : ℕ) {den : ℕ} (hd : 0 < den)
    (h : (num : ℚ) / den < limit) :
    ∃ x, ofRatio negative num den = some x ∧ x.negative = negative ∧
      |x.magnitude - num / den| ≤ num / den / 2 ^ 53 + 2 ^ (-1075 : ℤ) := by
  rcases Nat.eq_zero_or_pos num with rfl | hn
  · refine ⟨zero negative, rfl, rfl, ?_⟩
    have hzero : (zero negative).magnitude = 0 := by
      rw [magnitude, zero, Nat.cast_zero, zero_mul]
    rw [hzero, Nat.cast_zero, zero_div, sub_zero, abs_zero, zero_div, zero_add]
    exact (zpow_pos two_pos _).le
  set e := resultExponent num den with he
  set m := roundQuotient (scaled num den e).1 (scaled num den e).2 with hm
  have hround : |(m : ℚ) - num / den / 2 ^ e| ≤ 1 / 2 := by
    rw [← quotient_scaled]
    exact abs_roundQuotient_sub_le _ (scaled_pos num hd e)
  obtain ⟨hlow, hhigh⟩ := abs_le.1 hround
  have hlt : (num : ℚ) / den / 2 ^ e < 2 ^ 53 := quotient_lt hn hd
  have hle : m ≤ Nat.pow 2 53 := by
    have : (m : ℚ) < 2 ^ 53 + 1 := by linarith
    exact Nat.lt_succ_iff.1 (by exact_mod_cast this)
  have herror : |(m : ℚ) * 2 ^ e - num / den| ≤ num / den / 2 ^ 53 + 2 ^ (-1075 : ℤ) := by
    have hpos : (0 : ℚ) < 2 ^ e := by positivity
    calc |(m : ℚ) * 2 ^ e - num / den| = |(m : ℚ) - num / den / 2 ^ e| * 2 ^ e := by
          rw [← abs_of_pos hpos, ← abs_mul, abs_of_pos hpos, sub_mul, div_mul_cancel₀ _ hpos.ne']
      _ ≤ 1 / 2 * 2 ^ e := by gcongr
      _ ≤ 1 / 2 * (num / den / 2 ^ 52 + 2 ^ (-1074 : ℤ)) := by
          gcongr
          exact step_le hn hd
      _ = num / den / 2 ^ 53 + 2 ^ (-1075 : ℤ) := by
          rw [show (-1075 : ℤ) = -1074 - 1 by rfl, zpow_sub_one₀ two_ne_zero]
          ring
  have hrange := resultExponent_le hn hd h
  have hleast : -1074 ≤ e := le_max_right _ _
  rw [ofRatio, if_neg hn.ne']
  dsimp only
  change ∃ x, (if m = Nat.pow 2 53 then ofParts? negative (Nat.pow 2 52) (e + 1)
    else ofParts? negative m e) = some x ∧ _
  split_ifs with hcarry
  · have hnot : e ≠ 971 := by
      intro htop
      -- the quotient is less than half a step below the carry
      have hbound : (num : ℚ) / den / 2 ^ e < 2 ^ 53 - 1 / 2 := by
        rwa [htop, div_lt_iff₀ (by positivity)]
      rw [hcarry] at hlow hhigh
      push_cast at hhigh
      linarith
    obtain ⟨x, hx, hsign, hmag⟩ := exists_ofParts negative
      (m := Nat.pow 2 52) (e := e + 1) ⟨by decide, by omega, by omega, .inl le_rfl⟩
    refine ⟨x, hx, hsign, ?_⟩
    rwa [hmag, show ((Nat.pow 2 52 : ℕ) : ℚ) * 2 ^ (e + 1) = m * 2 ^ e by
      rw [hcarry, zpow_add_one₀ two_ne_zero]
      norm_num
      ring]
  · have hbits : Nat.pow 2 52 ≤ m ∨ e = -1074 := by
      by_cases hexp : e = -1074
      · exact .inr hexp
      · have hge := le_quotient hn hd hexp
        have : (2 : ℚ) ^ 52 < m + 1 := by linarith
        exact .inl (Nat.lt_succ_iff.1 (by exact_mod_cast this))
    obtain ⟨x, hx, hsign, hmag⟩ := exists_ofParts negative
      (m := m) (e := e) ⟨by omega, hleast, hrange, hbits⟩
    exact ⟨x, hx, hsign, by rwa [hmag]⟩

/-! ### Operations -/

theorem exists_ofNat {n : ℕ} (h : (n : ℚ) < limit) :
    ∃ x, ofNat n = some x ∧ |x.magnitude - n| ≤ n / 2 ^ 52 := by
  rcases Nat.eq_zero_or_pos n with rfl | hn
  · refine ⟨zero false, rfl, ?_⟩
    rw [magnitude, zero, Nat.cast_zero, zero_mul, sub_zero, abs_zero, zero_div]
  obtain ⟨x, hx, _, herror⟩ := exists_ofRatio false n Nat.one_pos (by rwa [Nat.cast_one, div_one])
  rw [Nat.cast_one, div_one] at herror
  refine ⟨x, hx, herror.trans ?_⟩
  have hone : (1 : ℚ) ≤ n := by exact_mod_cast hn
  have hstep : (2 : ℚ) ^ (-1075 : ℤ) ≤ n / 2 ^ 53 :=
    calc (2 : ℚ) ^ (-1075 : ℤ) ≤ 2 ^ (-53 : ℤ) := zpow_le_zpow_right₀ one_le_two (by decide)
      _ = 1 / 2 ^ 53 := by norm_num
      _ ≤ n / 2 ^ 53 := by gcongr
  have hsum : (n : ℚ) / 2 ^ 52 = n / 2 ^ 53 + n / 2 ^ 53 := by ring
  rw [hsum]
  gcongr

theorem exists_mul {x y : Binary64} (h : x.magnitude * y.magnitude < limit) :
    ∃ z, x.mul y = some z := by
  have hquotient : ((ratio (x.significand * y.significand) (x.exponent + y.exponent)).1 : ℚ) /
      (ratio (x.significand * y.significand) (x.exponent + y.exponent)).2 =
        x.magnitude * y.magnitude := by
    rw [quotient_ratio, zpow_add₀ two_ne_zero, magnitude, magnitude]
    push_cast
    ring
  obtain ⟨z, hz, _⟩ := exists_ofRatio (x.negative != y.negative) _ (ratio_pos _ _)
    (hquotient.trans_lt h)
  exact ⟨z, hz⟩

theorem exists_div {x y : Binary64} (hy : 0 < y.magnitude) (h : x.magnitude / y.magnitude < limit) :
    ∃ z, x.div y = some z ∧ z.magnitude ≤ 2 * (x.magnitude / y.magnitude) + 1 := by
  have hsig : y.significand ≠ 0 := magnitude_pos_iff.1 hy
  have hquotient : ((ratio x.significand (x.exponent - y.exponent)).1 : ℚ) /
      ((ratio x.significand (x.exponent - y.exponent)).2 * y.significand : ℕ) =
        x.magnitude / y.magnitude := by
    rw [Nat.cast_mul, ← div_div, quotient_ratio, zpow_sub₀ two_ne_zero, magnitude, magnitude]
    ring
  obtain ⟨z, hz, _, herror⟩ := exists_ofRatio (x.negative != y.negative) _
    (Nat.mul_pos (ratio_pos _ _) (Nat.pos_of_ne_zero hsig)) (hquotient.trans_lt h)
  rw [hquotient] at herror
  have hnonneg : 0 ≤ x.magnitude / y.magnitude := div_nonneg x.magnitude_nonneg hy.le
  refine ⟨z, ?_, ?_⟩
  · rw [div, if_neg hsig]
    exact hz
  · calc z.magnitude ≤ x.magnitude / y.magnitude +
          (x.magnitude / y.magnitude / 2 ^ 53 + 2 ^ (-1075 : ℤ)) :=
          sub_le_iff_le_add'.1 (abs_le.1 herror).2
      _ ≤ x.magnitude / y.magnitude + (x.magnitude / y.magnitude + 1) :=
          add_le_add le_rfl (add_le_add (div_le_self hnonneg (by norm_num))
            (zpow_le_one_of_nonpos₀ one_le_two (by decide)))
      _ = 2 * (x.magnitude / y.magnitude) + 1 := by ring

end StateText.Binary64
