import StateText.Number.Binary64

/-!
# Shortest decimals

Every binary number stands for the reals that round to it. `shortest` picks, among the decimals in
that interval, one with the fewest digits, of those the nearest to the number, and on a tie the one
with an even last digit.
-/

namespace StateText

/-- The decimal `coefficient * 10 ^ exponent`. -/
structure Decimal where
  coefficient : Nat
  exponent : Int
deriving DecidableEq

namespace Decimal

def digits (d : Decimal) : List Char := Nat.toDigits 10 d.coefficient

/-- The exponent of the first digit in scientific notation. -/
def leading (d : Decimal) : Int := d.exponent + d.digits.length - 1

def strip (d : Decimal) : (fuel : Nat) → Decimal
  | 0 => d
  | fuel + 1 =>
    if d.coefficient ≠ 0 ∧ d.coefficient % 10 = 0 then
      strip ⟨d.coefficient / 10, d.exponent + 1⟩ fuel
    else d

/-- Compares `a * 10 ^ p` with `b * 2 ^ q`. -/
def compareBinary (a : Nat) (p : Int) (b : Nat) (q : Int) : Ordering :=
  compare (a * Nat.pow 10 p.toNat * Nat.pow 2 (-q).toNat)
    (b * Nat.pow 2 q.toNat * Nat.pow 10 (-p).toNat)

end Decimal

namespace Binary64

/-- Four times the distance from the number to the lower end of its interval, in units of the
significand: the neighbour below a power of two is only half as far away. -/
def gapBelow (x : Binary64) : Nat :=
  if x.significand = Nat.pow 2 52 ∧ x.exponent ≠ -1074 then 1 else 2

/-- Does `c * 10 ^ p` round to the magnitude of `x`? The ends belong to an even significand. -/
def rounds (x : Binary64) (c : Nat) (p : Int) : Bool :=
  let low := Decimal.compareBinary c p (4 * x.significand - x.gapBelow) (x.exponent - 2)
  let high := Decimal.compareBinary c p (4 * x.significand + 2) (x.exponent - 2)
  if x.significand % 2 = 0 then low != .lt && high != .gt else low == .gt && high == .lt

/-- The largest `p` with `10 ^ p ≤ |x|`, for `x` other than zero: an estimate from the binary
exponent, which is off by one at most. -/
def floorLog10 (x : Binary64) : Int :=
  let estimate := (x.exponent + x.significand.log2) * 30103 / 100000
  let fits (p : Int) := Decimal.compareBinary 1 p x.significand x.exponent != .gt
  if fits (estimate + 1) then estimate + 1 else if fits estimate then estimate else estimate - 1

def floorAt (x : Binary64) (p : Int) : Nat :=
  let n := x.significand * Nat.pow 2 x.exponent.toNat * Nat.pow 10 (-p).toNat
  n / (Nat.pow 2 (-x.exponent).toNat * Nat.pow 10 p.toNat)

def onGrid? (x : Binary64) (p : Int) : Option Decimal :=
  let c := x.floorAt p
  match x.rounds c p, x.rounds (c + 1) p with
  | true, true =>
    match Decimal.compareBinary (2 * c + 1) p (2 * x.significand) x.exponent with
    | .gt => some ⟨c, p⟩
    | .lt => some ⟨c + 1, p⟩
    | .eq => some ⟨c + c % 2, p⟩
  | true, false => some ⟨c, p⟩
  | false, true => some ⟨c + 1, p⟩
  | false, false => none

def firstGrid (x : Binary64) (p : Int) : (fuel : Nat) → Decimal
  | 0 => ⟨x.floorAt p, p⟩
  | fuel + 1 =>
    match x.onGrid? p with
    | some d => d
    | none => firstGrid x (p - 1) fuel

/-- Seventeen digits always suffice. -/
def shortest (x : Binary64) : Decimal :=
  if x.significand = 0 then ⟨0, 0⟩ else (x.firstGrid x.floorLog10 17).strip 17

end Binary64

end StateText
