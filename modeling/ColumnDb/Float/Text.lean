import ColumnDb.Float.Shortest

/-!
# Floats as text

Reading: a float literal is an optional sign followed by `inf`, `infinity` or
`nan` in any case, or by digits with an optional point and an optional
exponent (`5`, `5.`, `.5`, `1e-3`, `2.5E+7`). Its value is rounded once,
exactly, to the nearest pattern of the format.

Writing: the shortest decimal of a pattern is laid out by a `FloatLayout`,
the record of a layout's decisions: which point positions are written
positionally, whether an integral value keeps a `.0`, whether a positive
exponent carries `+`, the texts of NaN and infinity, and which of two
equally near shortest decimals is written.
-/

namespace ColumnDb.Float

/-- What a float literal denotes before rounding. -/
inductive Literal where
  | nan (negative : Bool)
  | infinity (negative : Bool)
  /-- `digits * 10 ^ exponent` with a sign. -/
  | finite (negative : Bool) (digits : Nat) (exponent : Int)
deriving DecidableEq, Repr

/-- The value of a run of decimal digits. -/
def digitsValue (ds : List Char) : Nat :=
  ds.foldl (fun acc c => acc * 10 + (c.toNat - '0'.toNat)) 0

/-- Splits a leading sign off a character list. -/
def splitSign : List Char → Bool × List Char
  | '-' :: cs => (true, cs)
  | '+' :: cs => (false, cs)
  | cs => (false, cs)

/-- Reads the unsigned part of a finite literal: digits, an optional point and fraction, an
optional exponent. At least one digit must stand before or after the point. -/
def readUnsigned (cs : List Char) : Option (Nat × Int) :=
  let whole := cs.takeWhile Char.isDigit
  let rest := cs.dropWhile Char.isDigit
  let (frac, rest) := match rest with
    | '.' :: r => (r.takeWhile Char.isDigit, r.dropWhile Char.isDigit)
    | r => ([], r)
  if whole.isEmpty && frac.isEmpty then none
  else
    let mantissa := digitsValue (whole ++ frac)
    let shift : Int := -(frac.length : Int)
    match rest with
    | [] => some (mantissa, shift)
    | e :: r =>
      if (e == 'e' || e == 'E') then
        let (neg, ds) := splitSign r
        if ds.isEmpty || !ds.all Char.isDigit then none
        else
          let x : Int := digitsValue ds
          some (mantissa, shift + if neg then -x else x)
      else none

/-- Reads a float literal. -/
def Literal.read? (s : String) : Option Literal :=
  let (negative, cs) := splitSign s.toList
  let word := String.ofList (cs.map Char.toLower)
  if word == "inf" || word == "infinity" then some (.infinity negative)
  else if word == "nan" then some (.nan negative)
  else (readUnsigned cs).map fun (d, e) => .finite negative d e

/-- The number of decimal digits of a natural number (one for zero). -/
def decimalLength (n : Nat) : Nat := (Nat.toDigits 10 n).length

namespace BinaryFormat

variable (f : BinaryFormat)

/-- The pattern nearest to `digits * 10 ^ exponent`. Exponents so large or so small that the
value lies beyond every finite pattern, or below half the least one, are settled before any
power of ten is formed. -/
def ofDecimal (negative : Bool) (digits : Nat) (exponent : Int) : Nat :=
  if digits = 0 then f.zero negative
  else
    let top : Int := decimalLength digits + exponent
    -- the value lies in [10 ^ (top - 1), 10 ^ top)
    if top - 1 > (f.bias : Int) + 2 then f.infinity negative
    else if top < -((f.bias + f.fractionBits + 2 : Nat) : Int) then f.zero negative
    else
      let (num, den) := scaleTen digits exponent
      f.ofRatio negative num den

/-- The pattern a literal denotes. A negative NaN is the quiet NaN with its sign bit set. -/
def ofLiteral : Literal → Nat
  | .nan negative => f.quietNaN negative
  | .infinity negative => f.infinity negative
  | .finite negative digits exponent => f.ofDecimal negative digits exponent

/-- Reads a float literal as a pattern of the format. -/
def read? (s : String) : Option Nat := (Literal.read? s).map f.ofLiteral

end BinaryFormat

/-- The decisions of one way of writing floats. -/
structure FloatLayout where
  /-- The largest point position (digits before the point) written positionally, if bounded. -/
  fixedMax : Option Nat
  /-- Point positions at or below this one are written with an exponent. -/
  fixedMin : Int
  /-- Whether an integral value keeps a trailing `.0`. -/
  pointZero : Bool
  /-- Whether a positive exponent is written with `+`. -/
  plusExponent : Bool
  nanText : String
  infinityText : String
  /-- The text of negative infinity. -/
  negInfinityText : String
  /-- Which of two equally near shortest decimals is written. -/
  tie : TieBreak

/-- The plain layout: always positional, no `.0`, `NaN`, `inf` and `-inf`; a tie between two
shortest decimals goes to the larger. -/
def FloatLayout.plain : FloatLayout :=
  ⟨none, -1000000, false, false, "NaN", "inf", "-inf", .upward⟩

/-- The data-file layout for 64-bit floats: positional from `1e-5` up to 17 digits before the
point, `.0` on integral values, `e+` on large ones, `null` for NaN and either infinity, and a tie
between two shortest decimals going to the even digit. -/
def FloatLayout.json64 : FloatLayout :=
  ⟨some 16, -5, true, true, "null", "null", "null", .toEven⟩

/-- The data-file layout for 32-bit floats, positional over a narrower band. -/
def FloatLayout.json32 : FloatLayout :=
  ⟨some 13, -6, true, true, "null", "null", "null", .toEven⟩

/-- A run of zeros. -/
def zeros (n : Nat) : String := String.ofList (List.replicate n '0')

/-- Writes a decimal of the given sign by a layout. -/
def FloatLayout.decimal (l : FloatLayout) (negative : Bool) (d : Decimal) : String :=
  let sign := if negative then "-" else ""
  if d.digits = 0 then sign ++ (if l.pointZero then "0.0" else "0")
  else
    let s := String.ofList (Nat.toDigits 10 d.digits)
    let n := s.length
    let point : Int := n + d.exponent
    let positional := l.fixedMin < point && (match l.fixedMax with | none => true | some m => point ≤ m)
    let body :=
      if positional then
        if d.exponent ≥ 0 then
          s ++ zeros d.exponent.toNat ++ (if l.pointZero then ".0" else "")
        else if point > 0 then
          String.ofList (s.toList.take point.toNat) ++ "." ++ String.ofList (s.toList.drop point.toNat)
        else "0." ++ zeros (-point).toNat ++ s
      else
        let e := point - 1
        let mant := if n == 1 then s
          else String.ofList (s.toList.take 1) ++ "." ++ String.ofList (s.toList.drop 1)
        let exp := if e < 0 then "-" ++ toString (-e) else (if l.plusExponent then "+" else "") ++ toString e
        mant ++ "e" ++ exp
    sign ++ body

namespace BinaryFormat

variable (f : BinaryFormat)

/-- Writes a pattern by a layout, with the fewest digits that read back. -/
def render (l : FloatLayout) (bits : Nat) : String :=
  if f.isNaN bits then l.nanText
  else if f.isInfinite bits then (if f.isNegative bits then l.negInfinityText else l.infinityText)
  else if f.isZero bits then l.decimal (f.isNegative bits) ⟨0, 0⟩
  else l.decimal (f.isNegative bits) (f.shortest l.tie bits)

end BinaryFormat

end ColumnDb.Float
