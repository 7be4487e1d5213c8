import ColumnDb.Float.Text

/-!
# JSON values

A JSON value as the store reads and writes it. A number is an integer or a
binary float, as the reader classifies its literal. Objects keep their members in the
order written, duplicates included; `Json.fields` gives the map view, in
which the last of two equal keys wins and keys come in ascending order.

Writing escapes `"` and `\`, writes the control characters with short
escapes where JSON has them and as `\u00xx` otherwise, and leaves every other
character as it is. The compact form puts nothing between tokens; the pretty
form indents each member of a non-empty container by two spaces.
-/

namespace ColumnDb

open ColumnDb.Float

/-- A JSON number as read: an integer, or a float of some binary format. Reading gives an
integer for a literal with neither fraction nor exponent that fits 64 bits (below `2 ^ 64`, or
at least `-2 ^ 63` when negative) and a 64-bit float for every other literal. -/
inductive JsonNumber where
  | int (n : Int)
  | float (fmt : BinaryFormat) (bits : Nat)
deriving DecidableEq, Repr, Inhabited

/-- A JSON value. -/
inductive Json where
  | null
  | bool (b : Bool)
  | num (n : JsonNumber)
  | str (s : String)
  | arr (items : List Json)
  | obj (members : List (String × Json))
deriving Repr, Inhabited

namespace JsonNumber

/-- The integer a number holds, if it is an integer. -/
def toInt? : JsonNumber → Option Int
  | int n => some n
  | float .. => none

/-- The number as an unsigned 64-bit integer: a non-negative integer below `2 ^ 64`. -/
def asU64? (n : JsonNumber) : Option Nat :=
  match n.toInt? with
  | some i => if 0 ≤ i && i < Nat.pow 2 64 then some i.toNat else none
  | none => none

/-- The number as a 64-bit float: an integer rounds to the nearest one, a 32-bit float widens. -/
def toBinary64 : JsonNumber → Nat
  | int n => binary64.ofInt n
  | float fmt bits => fmt.convert binary64 bits

/-- The text of a number: an integer in decimal, a float in its shortest round-trip form
(`null` when it is not finite). -/
def render : JsonNumber → String
  | int n => toString n
  | float fmt bits =>
    fmt.render (if fmt.fractionBits ≤ 23 then FloatLayout.json32 else FloatLayout.json64) bits

end JsonNumber

/-- The JSON number of an integer. -/
def Json.int (n : Int) : Json := .num (.int n)

/-- Four hexadecimal digits, lowercase, for a code below `65536`. -/
def hex4 (n : Nat) : String :=
  let d (k : Nat) : Char := "0123456789abcdef".toList.getD (n / Nat.pow 16 k % 16) '0'
  String.ofList [d 3, d 2, d 1, d 0]

/-- The escaped form of one character inside a string literal. -/
def escapeChar (c : Char) : String :=
  if c == '"' then "\\\""
  else if c == '\\' then "\\\\"
  else if c == '\n' then "\\n"
  else if c == '\t' then "\\t"
  else if c == '\r' then "\\r"
  else if c.toNat == 8 then "\\b"
  else if c.toNat == 12 then "\\f"
  else if c.toNat < 32 then "\\u" ++ hex4 c.toNat
  else c.toString

/-- A string literal. -/
def quoteString (s : String) : String :=
  "\"" ++ String.join (s.toList.map escapeChar) ++ "\""

namespace Json

mutual
/-- The compact text of a value. -/
def render : Json → String
  | null => "null"
  | bool b => if b then "true" else "false"
  | num n => n.render
  | str s => quoteString s
  | arr items => "[" ++ renderItems items ++ "]"
  | obj members => "\x7b" ++ renderMembers members ++ "\x7d"

/-- The compact text of array items, comma-separated. -/
def renderItems : List Json → String
  | [] => ""
  | [j] => render j
  | j :: rest => render j ++ "," ++ renderItems rest

/-- The compact text of object members, comma-separated. -/
def renderMembers : List (String × Json) → String
  | [] => ""
  | [(k, v)] => quoteString k ++ ":" ++ render v
  | (k, v) :: rest => quoteString k ++ ":" ++ render v ++ "," ++ renderMembers rest
end

/-- Two spaces per level. -/
def indent (level : Nat) : String := String.ofList (List.replicate (2 * level) ' ')

mutual
/-- The pretty text of a value at an indentation level. -/
def pretty (level : Nat) : Json → String
  | arr [] => "[]"
  | obj [] => "\x7b\x7d"
  | arr items => "[\n" ++ prettyItems (level + 1) items ++ "\n" ++ indent level ++ "]"
  | obj members => "\x7b\n" ++ prettyMembers (level + 1) members ++ "\n" ++ indent level ++ "\x7d"
  | j => render j

/-- The pretty text of array items, one per line. -/
def prettyItems (level : Nat) : List Json → String
  | [] => ""
  | [j] => indent level ++ pretty level j
  | j :: rest => indent level ++ pretty level j ++ ",\n" ++ prettyItems level rest

/-- The pretty text of object members, one per line. -/
def prettyMembers (level : Nat) : List (String × Json) → String
  | [] => ""
  | [(k, v)] => indent level ++ quoteString k ++ ": " ++ pretty level v
  | (k, v) :: rest => indent level ++ quoteString k ++ ": " ++ pretty level v ++ ",\n" ++ prettyMembers level rest
end

/-- The member of an object under a key, the last one when the key repeats. -/
def get? (j : Json) (key : String) : Option Json :=
  match j with
  | obj members => (members.reverse.find? (·.1 == key)).map (·.2)
  | _ => none

/-- Inserts a key into a list of keys kept ascending and free of repeats. -/
def insertKey (k : String) : List String → List String
  | [] => [k]
  | x :: xs => if k < x then k :: x :: xs else if k == x then x :: xs else x :: insertKey k xs

/-- The members of an object as a map: ascending keys, the last value of a repeated key. -/
def fields (j : Json) : List (String × Json) :=
  match j with
  | obj members =>
    let keys := members.foldl (fun ks m => insertKey m.1 ks) []
    keys.filterMap fun k => (j.get? k).map (k, ·)
  | _ => []

end Json

end ColumnDb
