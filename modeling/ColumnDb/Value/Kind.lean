import ColumnDb.Float.Format

/-!
# Value kinds

A column holds values of one kind: a boolean, an integer of one of eight
widths and signednesses, a float of one of two formats, or text. Integer and
float kinds have a fixed encoded width; text has none.

A kind is named by its canonical name (`bool`, `i8`, …, `text`) or by one of
the aliases a schema may use (`int`, `string`, `double`, …), in any ASCII case.
-/

namespace ColumnDb

/-- The eight integer kinds. -/
inductive IntKind where
  | i8 | u8 | i16 | u16 | i32 | u32 | i64 | u64
deriving DecidableEq, Repr, Inhabited

/-- The two float kinds. -/
inductive FloatKind where
  | f32 | f64
deriving DecidableEq, Repr, Inhabited

/-- The kind of a column's values. -/
inductive ValueKind where
  | bool
  | int (k : IntKind)
  | float (k : FloatKind)
  | text
deriving DecidableEq, Repr, Inhabited

namespace IntKind

/-- Encoded width in bytes. -/
def width : IntKind → Nat
  | i8 | u8 => 1
  | i16 | u16 => 2
  | i32 | u32 => 4
  | i64 | u64 => 8

/-- Whether the kind is signed. -/
def signed : IntKind → Bool
  | i8 | i16 | i32 | i64 => true
  | _ => false

/-- The least value of the kind. -/
def min (k : IntKind) : Int := if k.signed then -((Nat.pow 2 (8 * k.width - 1) : Nat) : Int) else 0

/-- The greatest value of the kind. -/
def max (k : IntKind) : Int :=
  if k.signed then ((Nat.pow 2 (8 * k.width - 1) : Nat) : Int) - 1 else ((Nat.pow 2 (8 * k.width) : Nat) : Int) - 1

/-- Whether an integer is a value of the kind. -/
def fits (k : IntKind) (n : Int) : Bool := k.min ≤ n && n ≤ k.max

end IntKind

/-- The binary format of a float kind. -/
def FloatKind.format : FloatKind → Float.BinaryFormat
  | .f32 => Float.binary32
  | .f64 => Float.binary64

/-- Encoded width in bytes of a float kind. -/
def FloatKind.width : FloatKind → Nat
  | .f32 => 4
  | .f64 => 8

namespace ValueKind

/-- All kinds, in their canonical order. -/
def all : List ValueKind :=
  [bool, int .i8, int .u8, int .i16, int .u16, int .i32, int .u32, int .i64, int .u64,
   float .f32, float .f64, text]

/-- The canonical name of a kind. -/
def name : ValueKind → String
  | bool => "bool"
  | int .i8 => "i8"
  | int .u8 => "u8"
  | int .i16 => "i16"
  | int .u16 => "u16"
  | int .i32 => "i32"
  | int .u32 => "u32"
  | int .i64 => "i64"
  | int .u64 => "u64"
  | float .f32 => "f32"
  | float .f64 => "f64"
  | text => "text"

/-- The other name a schema may use besides the canonical name. -/
def altName : ValueKind → String
  | bool => "boolean"
  | int .i8 => "sbyte"
  | int .u8 => "byte"
  | int .i16 => "short"
  | int .u16 => "ushort"
  | int .i32 => "int"
  | int .u32 => "uint"
  | int .i64 => "long"
  | int .u64 => "ulong"
  | float .f32 => "float"
  | float .f64 => "double"
  | text => "string"

/-- The encoded width of a fixed-width kind; text has none. -/
def width? : ValueKind → Option Nat
  | bool => some 1
  | int k => some k.width
  | float k => some k.width
  | text => none

/-- Lowercases the ASCII letters of a text. -/
def asciiLower (s : String) : String := String.ofList (s.toList.map Char.toLower)

/-- Reads a kind from its name or alias in any ASCII case. The error carries the lowercased name. -/
def ofName? (s : String) : Except String ValueKind :=
  let lower := asciiLower s
  match all.find? (fun k => k.name == lower || k.altName == lower) with
  | some k => .ok k
  | none => .error lower

/-- The message for a name that is no kind. -/
def unknownMessage (lower : String) : String := "unknown column type '" ++ lower ++ "'"

theorem ofName_name (k : ValueKind) : ofName? k.name = .ok k := by
  cases k with
  | int k => cases k <;> rfl
  | float k => cases k <;> rfl
  | _ => rfl

end ValueKind

end ColumnDb
