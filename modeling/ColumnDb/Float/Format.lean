/-!
# Binary floating-point formats

A binary interchange format is fixed by the widths of its exponent and
fraction fields. A float of the format is its bit pattern, a natural number
below `2 ^ width`. This module reads the fields of a pattern, gives the exact
value of a finite pattern as `significand * 2 ^ exponent`, and rounds any
positive rational to the nearest pattern, a tie going to the even significand.

Everything here is exact arithmetic on `Nat` and `Int`; no hardware float is
involved, so the results are the same on every machine.
-/

namespace ColumnDb.Float

/-- An interchange format: the widths of its exponent and fraction fields. -/
structure BinaryFormat where
  exponentBits : Nat
  fractionBits : Nat
deriving DecidableEq, Repr

/-- The 64-bit format. -/
def binary64 : BinaryFormat := ⟨11, 52⟩

/-- The 32-bit format. -/
def binary32 : BinaryFormat := ⟨8, 23⟩

namespace BinaryFormat

variable (f : BinaryFormat)

/-- Number of bits of a pattern. -/
def width : Nat := 1 + f.exponentBits + f.fractionBits

/-- The exponent bias. -/
def bias : Nat := Nat.pow 2 (f.exponentBits - 1) - 1

/-- The all-ones exponent field of infinities and NaNs. -/
def topField : Nat := Nat.pow 2 f.exponentBits - 1

/-- The weight of the sign bit. -/
def signBit : Nat := Nat.pow 2 (f.exponentBits + f.fractionBits)

/-- Whether the sign bit of a pattern is set. -/
def isNegative (bits : Nat) : Bool := bits / f.signBit % 2 == 1

/-- The exponent field of a pattern. -/
def field (bits : Nat) : Nat := bits / Nat.pow 2 f.fractionBits % Nat.pow 2 f.exponentBits

/-- The fraction field of a pattern. -/
def fraction (bits : Nat) : Nat := bits % Nat.pow 2 f.fractionBits

/-- The pattern without its sign bit. -/
def magnitude (bits : Nat) : Nat := bits % f.signBit

/-- Whether a pattern is a NaN. -/
def isNaN (bits : Nat) : Bool := f.field bits == f.topField && f.fraction bits != 0

/-- Whether a pattern is an infinity. -/
def isInfinite (bits : Nat) : Bool := f.field bits == f.topField && f.fraction bits == 0

/-- Whether a pattern is a zero of either sign. -/
def isZero (bits : Nat) : Bool := f.magnitude bits == 0

/-- The significand of a finite pattern, hidden bit included. -/
def significand (bits : Nat) : Nat :=
  if f.field bits == 0 then f.fraction bits else f.fraction bits + Nat.pow 2 f.fractionBits

/-- The binary exponent of a finite pattern: its value is `significand * 2 ^ exponent`. -/
def exponent (bits : Nat) : Int :=
  (max (f.field bits) 1 : Nat) - (f.bias : Int) - f.fractionBits

/-- The pattern of a positive infinity, or of a negative one. -/
def infinity (negative : Bool) : Nat :=
  (if negative then f.signBit else 0) + f.topField * Nat.pow 2 f.fractionBits

/-- The pattern of a zero of the given sign. -/
def zero (negative : Bool) : Nat := if negative then f.signBit else 0

/-- The quiet NaN with a clear payload. -/
def quietNaN (negative : Bool) : Nat :=
  f.infinity negative + Nat.pow 2 (f.fractionBits - 1)

/-- Flips the sign bit. -/
def negate (bits : Nat) : Nat :=
  if f.isNegative bits then bits - f.signBit else bits + f.signBit

/-- The key of the total order on patterns: negative patterns below positive ones, a larger
magnitude further from zero, `-0` just below `+0` and NaNs beyond the infinities. -/
def totalKey (bits : Nat) : Int :=
  if f.isNegative bits then -((f.magnitude bits : Int) + 1) else f.magnitude bits

/-- The total order on patterns. -/
def totalCompare (a b : Nat) : Ordering := compare (f.totalKey a) (f.totalKey b)

end BinaryFormat

/-- `a / b` rounded to the nearest natural number, a tie going to the even one. -/
def roundHalfEven (a b : Nat) : Nat :=
  let q := a / b
  let r := a % b
  if 2 * r > b then q + 1
  else if 2 * r < b then q
  else if q % 2 == 0 then q else q + 1

/-- The integer part of the binary logarithm of `num / den`, for positive `num` and `den`. -/
def floorLog2 (num den : Nat) : Int :=
  let guess : Int := (num.log2 : Int) - den.log2
  -- the quotient lies in `[2 ^ (guess - 1), 2 ^ (guess + 1))`
  let reaches : Bool :=
    if guess ≥ 0 then num ≥ den * Nat.pow 2 guess.toNat else num * Nat.pow 2 (-guess).toNat ≥ den
  if reaches then guess else guess - 1

namespace BinaryFormat

variable (f : BinaryFormat)

/-- The pattern nearest to `num / den` with the given sign, a tie going to the even
significand; a magnitude beyond the largest finite pattern rounds to infinity. -/
def ofRatio (negative : Bool) (num den : Nat) : Nat :=
  if num = 0 ∨ den = 0 then f.zero negative
  else
    let minExp : Int := 1 - (f.bias : Int)
    let e := max (floorLog2 num den) minExp
    let q := e - f.fractionBits
    let m := if q ≥ 0 then roundHalfEven num (den * Nat.pow 2 q.toNat)
      else roundHalfEven (num * Nat.pow 2 (-q).toNat) den
    -- rounding up may carry into the next binade
    let (m, e) := if m = Nat.pow 2 (f.fractionBits + 1) then (Nat.pow 2 f.fractionBits, e + 1) else (m, e)
    if e > (f.bias : Int) then f.infinity negative
    else
      let body := if m < Nat.pow 2 f.fractionBits then m
        else (e + f.bias).toNat * Nat.pow 2 f.fractionBits + (m - Nat.pow 2 f.fractionBits)
      f.zero negative + body

/-- The pattern nearest to an integer. -/
def ofInt (n : Int) : Nat := f.ofRatio (n < 0) n.natAbs 1

/-- The exact value of a finite pattern's magnitude as a ratio of naturals. -/
def ratio (bits : Nat) : Nat × Nat :=
  let e := f.exponent bits
  if e ≥ 0 then (f.significand bits * Nat.pow 2 e.toNat, 1) else (f.significand bits, Nat.pow 2 (-e).toNat)

/-- The product of two finite patterns, rounded to the nearest pattern. -/
def mul (a b : Nat) : Nat :=
  let (na, da) := f.ratio a
  let (nb, db) := f.ratio b
  f.ofRatio (f.isNegative a != f.isNegative b) (na * nb) (da * db)

/-- The quotient of two finite patterns, the divisor not zero, rounded to the nearest pattern. -/
def div (a b : Nat) : Nat :=
  let (na, da) := f.ratio a
  let (nb, db) := f.ratio b
  f.ofRatio (f.isNegative a != f.isNegative b) (na * db) (da * nb)

/-- Carries a pattern of format `f` to the nearest pattern of format `g`. A NaN keeps its sign
and the high bits of its payload and becomes quiet. -/
def convert (g : BinaryFormat) (bits : Nat) : Nat :=
  let negative := f.isNegative bits
  if f.isNaN bits then
    let payload := if g.fractionBits ≥ f.fractionBits
      then f.fraction bits * Nat.pow 2 (g.fractionBits - f.fractionBits)
      else f.fraction bits / Nat.pow 2 (f.fractionBits - g.fractionBits)
    let quiet := Nat.pow 2 (g.fractionBits - 1)
    g.infinity negative + (payload % quiet) + quiet
  else if f.isInfinite bits then g.infinity negative
  else
    let (num, den) := f.ratio bits
    g.ofRatio negative num den

end BinaryFormat

theorem binary64_width : binary64.width = 64 := rfl

theorem binary32_width : binary32.width = 32 := rfl

end ColumnDb.Float
