/-!
# Shortest decimals

The decimal with the fewest digits that reads back as a given binary64 number. A positive number
is `m · 2 ^ q`; the reals that round to it form an interval around it, whose ends belong to it
exactly if `m` is even. Of all powers of ten whose multiples meet that interval the greatest is
taken, and of the multiples next to the number the nearer one, the greater one in a tie.

All comparisons are made between natural numbers: both sides are brought over the denominator of
the binary number and that of the power of ten.
-/

namespace Desugar.Decimal

/-- The number `coefficient · 10 ^ exponent`. -/
structure Scaled where
  coefficient : Nat
  exponent : Int
deriving DecidableEq

/-- A positive binary number and the reals that round to it. All are numerators over one
denominator, a power of two. -/
structure Neighbourhood where
  lower : Nat
  value : Nat
  upper : Nat
  denominator : Nat
  /-- The two ends round to the number. -/
  closed : Bool

/-- The neighbourhood of `m · 2 ^ q`. The gap below is half as wide if the next number below has
a smaller exponent. -/
def neighbourhood (m : Nat) (q : Int) (narrow : Bool) : Neighbourhood :=
  -- The unit is a quarter of the gap above.
  let scale := Nat.pow 2 (q - 2).toNat
  { lower := (4 * m - if narrow then 1 else 2) * scale
    value := 4 * m * scale
    upper := (4 * m + 2) * scale
    denominator := Nat.pow 2 (2 - q).toNat
    closed := m % 2 = 0 }

namespace Neighbourhood

/-- The decimal `d · 10 ^ k` rounds to the number. -/
def holds (n : Neighbourhood) (d : Nat) (k : Int) : Bool :=
  let point := d * Nat.pow 10 k.toNat * n.denominator
  let unit := Nat.pow 10 (-k).toNat
  if n.closed then n.lower * unit ≤ point && point ≤ n.upper * unit
  else n.lower * unit < point && point < n.upper * unit

/-- The multiple of `10 ^ k` at or below the number, as a coefficient. -/
def below (n : Neighbourhood) (k : Int) : Nat :=
  n.value * Nat.pow 10 (-k).toNat / (n.denominator * Nat.pow 10 k.toNat)

/-- The number lies nearer to the multiple `d` of `10 ^ k` than to `d + 1`. -/
def isNearBelow (n : Neighbourhood) (d : Nat) (k : Int) : Bool :=
  2 * n.value * Nat.pow 10 (-k).toNat < (2 * d + 1) * Nat.pow 10 k.toNat * n.denominator

/-- The multiple of `10 ^ k` that stands for the number, if one rounds to it. -/
def onGrid? (n : Neighbourhood) (k : Int) : Option Nat :=
  let d := n.below k
  match n.holds d k, n.holds (d + 1) k with
  | true, true => if n.isNearBelow d k then some d else some (d + 1)
  | true, false => some d
  | false, true => some (d + 1)
  | false, false => none

/-- The decimal on the coarsest grid that has one, among `tries` grids from `10 ^ k` down. -/
def coarsest (n : Neighbourhood) : (tries : Nat) → (k : Int) → Scaled
  | 0, k => ⟨n.below k, k⟩
  | tries + 1, k =>
    match n.onGrid? k with
    | some d => ⟨d, k⟩
    | none => n.coarsest tries (k - 1)

end Neighbourhood

/-- The exponent field of a bit pattern. -/
def exponentField (bits : UInt64) : Nat := bits.toNat / Nat.pow 2 52 % Nat.pow 2 11

/-- The fraction field of a bit pattern. -/
def fractionField (bits : UInt64) : Nat := bits.toNat % Nat.pow 2 52

/-- The sign bit of a bit pattern is set. -/
def isNegative (bits : UInt64) : Bool := bits.toNat / Nat.pow 2 63 % 2 == 1

/-- The bit pattern is that of a number, neither infinite nor a NaN. -/
def isFinite (bits : UInt64) : Bool := exponentField bits != 2047

/-- The bit pattern is that of a zero, of either sign. -/
def isZero (bits : UInt64) : Bool := exponentField bits == 0 && fractionField bits == 0

/-- The neighbourhood of the magnitude of a finite number other than zero. -/
def neighbourhoodOfBits (bits : UInt64) : Neighbourhood :=
  match exponentField bits with
  | 0 => neighbourhood (fractionField bits) (-1074) false
  | e + 1 =>
    neighbourhood (Nat.pow 2 52 + fractionField bits) (e - 1074) (fractionField bits == 0 && e != 0)

/-- The shortest decimal that reads back as the magnitude of a finite number other than zero. No
finite number reaches `10 ^ 309`, and every one has a decimal above `10 ^ (-342)`. -/
def shortest (bits : UInt64) : Scaled := (neighbourhoodOfBits bits).coarsest 650 308

end Desugar.Decimal
