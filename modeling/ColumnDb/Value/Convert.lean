import ColumnDb.Value.Basic
import ColumnDb.Float.Text
import ColumnDb.Text.Blank

/-!
# Reading, converting and showing values

- A literal of a condition is read as a value of a column's kind: numbers and
  booleans after blanks are cut from both ends, text as written.
- A value converts to another kind when nothing is lost that the kind can
  hold: an integer to an integer kind whose range holds it, any number to a
  float kind (rounded to nearest), and booleans and text only to their own kind.
- A value is shown plainly: integers in decimal, floats with the fewest digits
  that read back and never with an exponent, text as it is.
-/

namespace ColumnDb

open ColumnDb.Float ColumnDb.Text

/-- Reads an optionally signed decimal integer made of ASCII digits only. -/
def readInteger? (s : String) (allowMinus : Bool) : Option Int :=
  let (negative, digits) := match s.toList with
    | '+' :: ds => (false, ds)
    | '-' :: ds => (true, ds)
    | ds => (false, ds)
  if digits.isEmpty || !digits.all Char.isDigit || (negative && !allowMinus) then none
  else
    let n : Int := digitsValue digits
    some (if negative then -n else n)

namespace ValueKind

/-- Reads a literal as a value of the kind; `none` when it is no such value. -/
def readLiteral? (k : ValueKind) (literal : String) : Option Value :=
  let t := trimBlank literal
  match k with
  | .text => some (.text literal)
  | .bool => if t == "true" then some (.bool true) else if t == "false" then some (.bool false) else none
  | .int ik => match readInteger? t ik.signed with
    | some n => if ik.fits n then some (.int ik n) else none
    | none => none
  | .float fk => (fk.format.read? t).map (.float fk)

end ValueKind

namespace Value

/-- The integer a value holds, if it is an integer. -/
def asInt? : Value → Option Int
  | int _ n => some n
  | _ => none

/-- The 64-bit float pattern nearest to a numeric value. -/
def asF64? : Value → Option Nat
  | int _ n => some (binary64.ofInt n)
  | float .f64 bits => some bits
  | float .f32 bits => some (binary32.convert binary64 bits)
  | _ => none

/-- The text a value holds, if it is text. -/
def asText? : Value → Option String
  | text s => some s
  | _ => none

/-- The plain text of a value. -/
def display : Value → String
  | bool b => if b then "true" else "false"
  | int _ n => toString n
  | float k bits => k.format.render .plain bits
  | text s => s

/-- The encoded width of a value's kind. -/
def width? (v : Value) : Option Nat := v.kind.width?

end Value

namespace ValueKind

/-- Converts a value to the kind, if the kind can hold it. -/
def coerce (k : ValueKind) (v : Value) : Option Value :=
  if v.kind == k then some v
  else match k with
    | .bool | .text => none
    | .float .f64 => (v.asF64?).map (.float .f64)
    | .float .f32 => (v.asF64?).map fun bits => .float .f32 (binary64.convert binary32 bits)
    | .int ik => match v.asInt? with
      | some n => if ik.fits n then some (.int ik n) else none
      | none => none

theorem coerce_self (v : Value) : coerce v.kind v = some v := by
  simp [coerce]

end ValueKind

end ColumnDb
