import ColumnDb.Float.Text

/-!
# JSON numbers as floats

How the JSON reader turns a literal that is not a 64-bit integer into a
64-bit float. The literal's digits are gathered into a 64-bit significand
(digits past its capacity are dropped, those before the point counted into
the exponent) and the decimal exponent is kept as a 32-bit integer. The
float is then the significand rounded to a float, multiplied or divided by
a tabled power of ten `10 ^ k` for `k ≤ 308`, each step rounded. A
quotient by a power beyond the table is taken in steps of `10 ^ 308`.

This is faster than and not the same as rounding the literal's exact value:
`1e-30` becomes the float just below the nearest one. A product that
overflows, or a positive exponent beyond the table with a non-zero
significand, is out of range.
-/

namespace ColumnDb.Float

/-- The largest unsigned 64-bit integer. -/
def u64Max : Nat := Nat.pow 2 64 - 1

/-- The largest signed 32-bit integer. -/
def i32Max : Nat := Nat.pow 2 31 - 1

/-- An integer held to the signed 32-bit range. -/
def clampI32 (e : Int) : Int := max (-(Nat.pow 2 31 : Int)) (min e i32Max)

/-- The tabled power `10 ^ k`, the nearest 64-bit float. -/
def tenPower (k : Nat) : Nat := binary64.ofDecimal false 1 k

/-- Scales a non-negative finite float by `10 ^ exponent`, one rounded step per tabled power;
`none` when the result is out of range. -/
def scaleByTen (f : Nat) (exponent : Int) : Option Nat :=
  if exponent.natAbs ≤ 308 then
    if exponent ≥ 0 then
      let g := binary64.mul f (tenPower exponent.toNat)
      if binary64.isInfinite g then none else some g
    else some (binary64.div f (tenPower exponent.natAbs))
  else if binary64.isZero f then some f
  else if exponent ≥ 0 then none
  else scaleByTen (binary64.div f (tenPower 308)) (exponent + 308)
termination_by exponent.natAbs
decreasing_by omega

/-- The float a JSON literal reads as, from its sign, 64-bit significand and decimal exponent. -/
def jsonFloat (positive : Bool) (significand : Nat) (exponent : Int) : Option Nat :=
  (scaleByTen (binary64.ofInt significand) exponent).map fun f =>
    if positive then f else binary64.negate f

end ColumnDb.Float
