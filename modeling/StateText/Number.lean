import StateText.Number.Shortest

/-!
# Numbers of a document

A number is a natural number of 64 bits, a negative integer of 64 bits, or a binary floating-point
number. `text` is its one written form in JSON.
-/

namespace StateText

/-- Where a decimal is written without an exponent. -/
structure Decimal.Layout where
  lowest : Int
  below : Int

namespace Decimal

/-- Digits around the point; a whole number keeps `.0`. -/
def positional (d : Decimal) : List Char :=
  let ds := d.digits
  let point := d.leading + 1
  if point ≤ 0 then '0' :: '.' :: (List.replicate (-point).toNat '0' ++ ds)
  else if ds.length ≤ point.toNat then
    ds ++ List.replicate (point.toNat - ds.length) '0' ++ ['.', '0']
  else ds.take point.toNat ++ '.' :: ds.drop point.toNat

def scientific (d : Decimal) : List Char :=
  let mantissa := match d.digits with
    | [] => []
    | [c] => [c]
    | c :: cs => c :: '.' :: cs
  let sign := if d.leading < 0 then '-' else '+'
  mantissa ++ 'e' :: sign :: Nat.toDigits 10 d.leading.natAbs

def Layout.write (layout : Layout) (d : Decimal) : List Char :=
  if layout.lowest ≤ d.leading ∧ d.leading < layout.below then d.positional else d.scientific

end Decimal

inductive Number where
  | natural (n : Nat) (bounded : n < Nat.pow 2 64)
  /-- The integer `-n`. -/
  | negative (n : Nat) (bounded : 0 < n ∧ n ≤ Nat.pow 2 63)
  | float (x : Binary64)
deriving DecidableEq

namespace Number

def layout : Decimal.Layout := ⟨-5, 16⟩

def signed (negative : Bool) (cs : List Char) : List Char := if negative then '-' :: cs else cs

def text : Number → List Char
  | natural n _ => Nat.toDigits 10 n
  | negative n _ => '-' :: Nat.toDigits 10 n
  | float x => signed x.negative (layout.write x.shortest)

def isInteger : Number → Bool
  | natural _ _ => true
  | negative _ _ => true
  | float _ => false

/-- The integer of the given sign and magnitude where 64 bits hold it, and else the nearest
floating-point number; minus zero is a floating-point number. -/
def ofInteger? (isNegative : Bool) (magnitude : Nat) : Option Number :=
  if isNegative then
    if h : 0 < magnitude ∧ magnitude ≤ Nat.pow 2 63 then some (negative magnitude h)
    else (Binary64.ofRatio true magnitude 1).map float
  else if h : magnitude < Nat.pow 2 64 then some (natural magnitude h)
  else (Binary64.ofNat magnitude).map float

end Number

end StateText
