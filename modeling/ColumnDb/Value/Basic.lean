import ColumnDb.Value.Kind
import ColumnDb.Bytes.LittleEndian
import ColumnDb.Text.Utf8

/-!
# Values

A value is a boolean, an integer of an integer kind, a float of a float kind
(held as its bit pattern) or a text. Every value has a kind, a byte encoding
(little-endian numbers, one byte for a boolean, UTF-8 for text) and a place
in the order of its kind: integers by value, floats by the total order on bit
patterns, texts by their UTF-8 bytes.

Decoding reads the leading bytes of a payload and ignores the rest; a payload
shorter than the kind's width, or text that is not UTF-8, is refused with the
message the store reports.
-/

namespace ColumnDb

open ColumnDb.Bytes ColumnDb.Text

/-- A value stored in a column. An integer lies in its kind's range and a float's pattern
fits its format. -/
inductive Value where
  | bool (b : Bool)
  | int (k : IntKind) (n : Int)
  | float (k : FloatKind) (bits : Nat)
  | text (s : String)
deriving DecidableEq, Repr, Inhabited

namespace Value

/-- The kind of a value. -/
def kind : Value → ValueKind
  | bool _ => .bool
  | int k _ => .int k
  | float k _ => .float k
  | text _ => .text

/-- The stored bytes of a value. -/
def encode : Value → List UInt8
  | bool b => [if b then 1 else 0]
  | int k n => writeLE k.width (ofInt k.width n)
  | float k bits => writeLE k.width bits
  | text s => utf8Bytes s

/-- The order of two values of one kind; values of different kinds are ordered by kind. -/
def compare : Value → Value → Ordering
  | bool a, bool b => Ord.compare a b
  | int _ a, int _ b => Ord.compare a b
  | float k a, float _ b => k.format.totalCompare a b
  | text a, text b => Ord.compare (utf8Bytes a) (utf8Bytes b)
  | a, b => Ord.compare a.kind.name b.kind.name

end Value

/-- Why stored bytes are no value of a kind. -/
inductive DecodeFault where
  /-- The payload holds fewer bytes than the kind's width. -/
  | short (width : Nat) (kind : ValueKind) (found : Nat)
  | notText (fault : Utf8Fault)
deriving DecidableEq, Repr

/-- The sentence that reports a decode fault. -/
def DecodeFault.message : DecodeFault → String
  | .short w k n => "expected " ++ toString w ++ " bytes for " ++ k.name ++ ", found " ++ toString n
  | .notText f => f.message

namespace ValueKind

/-- Reads a value of the kind from the leading bytes of a payload. -/
def decode (k : ValueKind) (bs : List UInt8) : Except DecodeFault Value :=
  match k with
  | .text => match decodeUtf8 bs with
    | .ok s => .ok (.text s)
    | .error f => .error (.notText f)
  | .bool => match bs with
    | [] => .error (.short 1 k 0)
    | b :: _ => .ok (.bool (b != 0))
  | .int ik =>
    if bs.length < ik.width then .error (.short ik.width k bs.length)
    else
      let n := readLE (bs.take ik.width)
      .ok (.int ik (if ik.signed then toSigned ik.width n else n))
  | .float fk =>
    if bs.length < fk.width then .error (.short fk.width k bs.length)
    else .ok (.float fk (readLE (bs.take fk.width)))

end ValueKind

end ColumnDb
