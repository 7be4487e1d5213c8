import ColumnDb.Value.Kind

/-!
# Column definitions

A column is declared with a name, a kind, a size (the longest text in bytes,
`0` for unbounded; ignored for fixed-width kinds) and whether it asks to be
the key. The declaration decides which file backs the column:

- fixed-width kinds: a tree file with slots of `width + 30` bytes;
- text of size `1 ..= 200`: a tree file over texts with slots of `size + 30` bytes;
- text of a larger size: a text file whose blob slots hold `size + 12` bytes;
- unsized text: a text file whose blob slots hold the configured text block size.

Capacities are 32-bit words, so a sum beyond `2 ^ 32` wraps.
Only tree columns answer comparisons, and only they may be the key.
-/

namespace ColumnDb

/-- Bytes in front of a tree slot's payload. -/
def treeSlotHeader : Nat := 30

/-- Bytes in front of a sized slot's payload. -/
def sizedSlotHeader : Nat := 12

/-- The largest text size kept inline in a tree column. -/
def inlineTextLimit : Nat := 200

/-- The declaration of one column. -/
structure ColumnDef where
  name : String
  kind : ValueKind
  size : Nat := 0
  key : Bool := false
deriving DecidableEq, Repr, Inhabited

/-- Which file backs a column. -/
inductive StorageKind where
  /-- A tree file with slots of `capacity` bytes, answering comparisons. -/
  | ordered (capacity : Nat)
  /-- A pointer file and a blob file whose slots hold `blobCapacity` bytes. -/
  | text (blobCapacity : Nat)
deriving DecidableEq, Repr

namespace ColumnDef

/-- The file that backs the column, given the block size for unsized text. -/
def storage (d : ColumnDef) (textBlockSize : Nat) : StorageKind :=
  match d.kind.width? with
  | some w => .ordered ((w + treeSlotHeader) % Nat.pow 2 32)
  | none =>
    if d.size == 0 then .text textBlockSize
    else if d.size > inlineTextLimit then .text ((d.size + sizedSlotHeader) % Nat.pow 2 32)
    else .ordered ((d.size + treeSlotHeader) % Nat.pow 2 32)

/-- Whether the column answers comparisons. -/
def isOrderable (d : ColumnDef) : Bool :=
  match d.storage 0 with
  | .ordered _ => true
  | .text _ => false

theorem isOrderable_of_width (d : ColumnDef) (w : Nat) (h : d.kind.width? = some w) :
    d.isOrderable = true := by
  simp [isOrderable, storage, h]

end ColumnDef

end ColumnDb
