/-!
# Binary floating-point numbers of 64 bits

A finite number is a sign and a magnitude `significand * 2 ^ exponent` in its one stored form. The
operations round the exact result once, to the nearest such number and on a tie to the even
significand; a result beyond the largest number is `none`.
-/

namespace StateText

namespace Binary64

/-- The stored form: 53 bits at most, and fewer only at the smallest exponent. -/
def Canonical (significand : Nat) (exponent : Int) : Prop :=
  significand < Nat.pow 2 53 ∧ -1074 ≤ exponent ∧ exponent ≤ 971 ∧
    (Nat.pow 2 52 ≤ significand ∨ exponent = -1074)

instance (m : Nat) (e : Int) : Decidable (Canonical m e) :=
  inferInstanceAs (Decidable (_ ∧ _ ∧ _ ∧ _))

end Binary64

structure Binary64 where
  negative : Bool
  significand : Nat
  exponent : Int
  canonical : Binary64.Canonical significand exponent
deriving DecidableEq

namespace Binary64

def ofParts? (negative : Bool) (significand : Nat) (exponent : Int) : Option Binary64 :=
  if h : Canonical significand exponent then some ⟨negative, significand, exponent, h⟩ else none

def zero (negative : Bool) : Binary64 := ⟨negative, 0, -1074, by decide⟩

def isZero (x : Binary64) : Bool := x.significand == 0

def neg (x : Binary64) : Binary64 := ⟨!x.negative, x.significand, x.exponent, x.canonical⟩

/-- The quotient, rounded to the nearest natural number and on a tie to the even one. -/
def roundQuotient (num den : Nat) : Nat :=
  let q := num / den
  let r := num % den
  if 2 * r < den then q else if den < 2 * r then q + 1 else q + q % 2

/-- Numerator and denominator of `num / den / 2 ^ e`. -/
def scaled (num den : Nat) (e : Int) : Nat × Nat :=
  if 0 ≤ e then (num, den * Nat.pow 2 e.toNat) else (num * Nat.pow 2 (-e).toNat, den)

/-- The largest `e` with `2 ^ e ≤ num / den`, for positive `num` and `den`. -/
def floorLog2 (num den : Nat) : Int :=
  let e : Int := num.log2 - den.log2
  let (n, d) := scaled num den e
  if d ≤ n then e else e - 1

/-- The number nearest to `num / den`. -/
def ofRatio (negative : Bool) (num den : Nat) : Option Binary64 :=
  if num = 0 then some (zero negative)
  else
    let e := max (floorLog2 num den - 52) (-1074)
    let (n, d) := scaled num den e
    let m := roundQuotient n d
    if m = Nat.pow 2 53 then ofParts? negative (Nat.pow 2 52) (e + 1) else ofParts? negative m e

def ofNat (n : Nat) : Option Binary64 := ofRatio false n 1

def ratio (m : Nat) (e : Int) : Nat × Nat :=
  if 0 ≤ e then (m * Nat.pow 2 e.toNat, 1) else (m, Nat.pow 2 (-e).toNat)

def mul (x y : Binary64) : Option Binary64 :=
  let (n, d) := ratio (x.significand * y.significand) (x.exponent + y.exponent)
  ofRatio (x.negative != y.negative) n d

def div (x y : Binary64) : Option Binary64 :=
  if y.significand = 0 then none
  else
    let (n, d) := ratio x.significand (x.exponent - y.exponent)
    ofRatio (x.negative != y.negative) n (d * y.significand)

def whole? (x : Binary64) : Option Nat :=
  let (n, d) := ratio x.significand x.exponent
  if n % d = 0 then some (n / d) else none

@[simp] theorem whole?_zero (negative : Bool) : (zero negative).whole? = some 0 := by
  cases negative <;> decide +kernel

end Binary64

end StateText
