import ColumnDb.Float.Format

/-!
# Shortest decimal digits

Every finite float is the nearest float to a whole interval of reals: the
reals closer to it than to either neighbour, with the ends included when its
significand is even (a tie reads back to the even significand). The shortest
decimal of a float is the decimal with the fewest significant digits inside
that interval; of two such decimals, the one nearer to the float's exact
value. Two equally near decimals are told apart by a `TieBreak`: the even
last digit, or the larger one.

The search tries 1, 2, 3, … digits. At `n` digits the only candidates are the
two neighbours of the exact value on the grid of `n`-digit decimals, because
the interval is far narrower than one step of that grid. It succeeds at 17
digits for the 64-bit format and at 9 for the 32-bit one, so the search is
bounded by `maxDigits`.
-/

namespace ColumnDb.Float

/-- A decimal `digits * 10 ^ exponent`; `digits` has no trailing zero unless it is zero. -/
structure Decimal where
  digits : Nat
  exponent : Int
deriving DecidableEq, Repr, Inhabited

/-- `num * 10 ^ k`, for an integer `k`, as a ratio of naturals. -/
def scaleTen (num : Nat) (k : Int) : Nat × Nat :=
  if k ≥ 0 then (num * Nat.pow 10 k.toNat, 1) else (num, Nat.pow 10 (-k).toNat)

/-- Compares the ratios `a / b` and `c / d` of naturals with positive denominators. -/
def compareRatio (a b c d : Nat) : Ordering := compare (a * d) (c * b)

/-- The largest `k` with `10 ^ k ≤ num / den`, for positive `num` and `den`: a guess from the
binary logarithm, corrected by exact comparison. -/
def floorLog10 (num den : Nat) : Int :=
  let guess : Int := floorLog2 num den * 30103 / 100000
  let rec fix (fuel : Nat) (k : Int) : Int :=
    match fuel with
    | 0 => k
    | fuel + 1 =>
      let (p, q) := scaleTen 1 k
      let (p', q') := scaleTen 1 (k + 1)
      if compareRatio p q num den == .gt then fix fuel (k - 1)
      else if compareRatio p' q' num den != .gt then fix fuel (k + 1)
      else k
  fix 8 guess

/-- Drops the trailing zeros of a decimal's digits. -/
def Decimal.normalize (d : Decimal) : Decimal :=
  let rec go (fuel : Nat) (digits : Nat) (exponent : Int) : Decimal :=
    match fuel with
    | 0 => ⟨digits, exponent⟩
    | fuel + 1 =>
      if digits ≠ 0 ∧ digits % 10 = 0 then go fuel (digits / 10) (exponent + 1)
      else ⟨digits, exponent⟩
  go (Nat.log2 d.digits + 1) d.digits d.exponent

/-- Which of two shortest decimals equally near to a float is written. -/
inductive TieBreak where
  /-- The one whose last digit is even. -/
  | toEven
  /-- The one of larger magnitude. -/
  | upward
deriving DecidableEq, Repr, Inhabited

/-- The lower candidate `low` or the one above it, when both are equally near. -/
def TieBreak.pick : TieBreak → Nat → Nat
  | .toEven, low => if low % 2 == 0 then low else low + 1
  | .upward, low => low + 1

namespace BinaryFormat

variable (f : BinaryFormat)

/-- The most significant digits the shortest decimal of a float of this format can need. -/
def maxDigits : Nat := if f.fractionBits ≤ 23 then 9 else 17

/-- The shortest decimal of a finite, nonzero pattern's magnitude, ties settled by `tie`. -/
def shortest (tie : TieBreak) (bits : Nat) : Decimal :=
  let m := f.significand bits
  let e := f.exponent bits
  -- in units of 2 ^ (e - 2) the value is 4m, the gap above it 2 and the gap below it 2,
  -- or 1 at the bottom of a binade
  let below := if f.fraction bits == 0 && f.field bits > 1 then 1 else 2
  let inclusive := m % 2 == 0
  let unit := e - 2
  let (vNum, vDen) := if unit ≥ 0 then (4 * m * Nat.pow 2 unit.toNat, 1) else (4 * m, Nat.pow 2 (-unit).toNat)
  let lowNum := if unit ≥ 0 then (4 * m - below) * Nat.pow 2 unit.toNat else 4 * m - below
  let highNum := if unit ≥ 0 then (4 * m + 2) * Nat.pow 2 unit.toNat else 4 * m + 2
  -- whether `d * 10 ^ k` reads back to the float
  let inside (d : Nat) (k : Int) : Bool :=
    let (p, q) := scaleTen d k
    let lo := compareRatio p q lowNum vDen
    let hi := compareRatio p q highNum vDen
    if inclusive then lo != .lt && hi != .gt else lo == .gt && hi == .lt
  let top := floorLog10 vNum vDen
  let rec search (fuel n : Nat) : Decimal :=
    let k := top - n + 1
    let (p, q) := scaleTen 1 k
    -- the value divided by 10 ^ k, truncated
    let low := (vNum * q) / (vDen * p)
    let lowIn := inside low k
    let highIn := inside (low + 1) k
    match fuel with
    | 0 => ⟨low + 1, k⟩
    | fuel + 1 =>
      if lowIn && highIn then
        -- twice the distance from the value to the lower candidate, against one grid step
        let (a, b) := scaleTen low k
        match compare (2 * (vNum * b - a * vDen) * q) (vDen * b * p) with
        | .lt => ⟨low, k⟩
        | .gt => ⟨low + 1, k⟩
        | .eq => ⟨tie.pick low, k⟩
      else if lowIn then ⟨low, k⟩
      else if highIn then ⟨low + 1, k⟩
      else search fuel (n + 1)
  (search (f.maxDigits + 2) 1).normalize

end BinaryFormat

end ColumnDb.Float
