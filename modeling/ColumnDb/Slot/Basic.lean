import ColumnDb.Slot.Window

/-!
# Slots

A slot file is a header followed by slots of one capacity; slot `id` starts
at `header + id * capacity`. Three views of a slot share that addressing and
differ in their fields:

```text
link slot:   | next (8) | …
chunk slot:  | next (8) | len (4) | payload …
node slot:   | parent (8) | left (8) | left depth (1) | right (8) | right depth (1) | len (4) | payload … |
```

A loaded slot reads its whole region once and slices the fields out of it; a
created slot is dirty in every field and in its whole payload. A flush writes
the dirty fields in the order above, then the payload. The free chain reads
every slot as a link slot, so a released slot is linked through its first
eight bytes whatever it held before.
-/

namespace ColumnDb.Slot

open ColumnDb.Disk

/-- Where slots lie in a file. -/
structure Layout where
  header : Nat
  capacity : Nat
deriving DecidableEq, Repr, Inhabited

/-- The offset of a slot. -/
def Layout.offset (l : Layout) (id : Nat) : Nat := l.header + id * l.capacity

/-- Bytes in front of a chunk slot's payload. -/
def chunkHeader : Nat := 12

/-- Bytes in front of a node slot's payload. -/
def nodeHeader : Nat := 30

/-- A slot seen as a link in a chain. -/
structure LinkSlot where
  id : Nat
  next : Cell
deriving DecidableEq, Repr, Inhabited

namespace LinkSlot

/-- Reads a link slot. -/
def load (d : Disk) (s : Nat) (l : Layout) (id : Nat) : LinkSlot := ⟨id, Cell.load d s (l.offset id) 8⟩

/-- A new link slot with no successor. -/
def create (l : Layout) (id : Nat) : LinkSlot := ⟨id, Cell.create (l.offset id) 8 0⟩

/-- Sets the successor. -/
def setNext (b : LinkSlot) (next : Nat) : LinkSlot := { b with next := b.next.set next }

/-- Writes the slot's dirty link. -/
def flush (b : LinkSlot) (d : Disk) (s : Nat) : LinkSlot × Disk :=
  let (next, d) := b.next.flush d s
  ({ b with next }, d)

end LinkSlot

/-- A slot holding a length-prefixed payload and a link to a continuation. -/
structure ChunkSlot where
  id : Nat
  next : Cell
  len : Cell
  payload : Window
deriving DecidableEq, Repr, Inhabited

namespace ChunkSlot

/-- Payload bytes a chunk slot holds. -/
def payloadCapacity (l : Layout) : Nat := l.capacity - chunkHeader

/-- Reads a chunk slot. -/
def load (d : Disk) (s : Nat) (l : Layout) (id : Nat) : ChunkSlot :=
  let base := l.offset id
  let region := d.read s base l.capacity
  ⟨id, Cell.ofBytes base 8 region, Cell.ofBytes (base + 8) 4 (region.drop 8),
    Window.ofBytes (base + chunkHeader) (payloadCapacity l) (region.drop chunkHeader)⟩

/-- The payload: its first `len` bytes, at most all of it. -/
def data (b : ChunkSlot) : List UInt8 := b.payload.bytes.take (min b.len.value b.payload.capacity)

/-- Replaces the payload and its length. -/
def setData (b : ChunkSlot) (bs : List UInt8) : Except SlotFault ChunkSlot := do
  let payload ← b.payload.update bs
  return { b with payload, len := b.len.set bs.length }

/-- A new chunk slot holding `bs`, dirty throughout. -/
def create (l : Layout) (id : Nat) (bs : List UInt8) : Except SlotFault ChunkSlot :=
  let base := l.offset id
  setData ⟨id, Cell.create base 8 0, Cell.create (base + 8) 4 0,
    Window.create (base + chunkHeader) (payloadCapacity l)⟩ bs

/-- Sets the continuation. -/
def setNext (b : ChunkSlot) (next : Nat) : ChunkSlot := { b with next := b.next.set next }

/-- Whether any field or the payload is dirty. -/
def dirty (b : ChunkSlot) : Bool := b.next.dirty || b.len.dirty || b.payload.dirty

/-- Writes the dirty fields, then the payload. -/
def flush (b : ChunkSlot) (d : Disk) (s : Nat) : ChunkSlot × Disk :=
  let (next, d) := b.next.flush d s
  let (len, d) := b.len.flush d s
  let (payload, d) := b.payload.flush d s
  ({ b with next, len, payload }, d)

end ChunkSlot

/-- A slot holding a tree node: links to its parent and children, the heights of its
subtrees, and a length-prefixed payload. -/
structure NodeSlot where
  id : Nat
  parent : Cell
  left : Cell
  leftDepth : Cell
  right : Cell
  rightDepth : Cell
  len : Cell
  payload : Window
deriving DecidableEq, Repr, Inhabited

namespace NodeSlot

/-- Payload bytes a node slot holds. -/
def payloadCapacity (l : Layout) : Nat := l.capacity - nodeHeader

/-- Reads a node slot. -/
def load (d : Disk) (s : Nat) (l : Layout) (id : Nat) : NodeSlot :=
  let base := l.offset id
  let region := d.read s base l.capacity
  ⟨id, Cell.ofBytes base 8 region, Cell.ofBytes (base + 8) 8 (region.drop 8),
    Cell.ofBytes (base + 16) 1 (region.drop 16), Cell.ofBytes (base + 17) 8 (region.drop 17),
    Cell.ofBytes (base + 25) 1 (region.drop 25), Cell.ofBytes (base + 26) 4 (region.drop 26),
    Window.ofBytes (base + nodeHeader) (payloadCapacity l) (region.drop nodeHeader)⟩

/-- The payload: its first `len` bytes, at most all of it. -/
def data (b : NodeSlot) : List UInt8 := b.payload.bytes.take (min b.len.value b.payload.capacity)

/-- Replaces the payload and its length. -/
def setData (b : NodeSlot) (bs : List UInt8) : Except SlotFault NodeSlot := do
  let payload ← b.payload.update bs
  return { b with payload, len := b.len.set bs.length }

/-- A new node slot holding `bs`, with no links, dirty throughout. -/
def create (l : Layout) (id : Nat) (bs : List UInt8) : Except SlotFault NodeSlot :=
  let base := l.offset id
  setData ⟨id, Cell.create base 8 0, Cell.create (base + 8) 8 0, Cell.create (base + 16) 1 0,
    Cell.create (base + 17) 8 0, Cell.create (base + 25) 1 0, Cell.create (base + 26) 4 0,
    Window.create (base + nodeHeader) (payloadCapacity l)⟩ bs

/-- The height of the node's subtree, from its cached child heights; it wraps as a byte. -/
def depth (b : NodeSlot) : Nat := (1 + max b.leftDepth.value b.rightDepth.value) % 256

/-- Sets the parent link. -/
def setParent (b : NodeSlot) (v : Nat) : NodeSlot := { b with parent := b.parent.set v }
/-- Sets the left link. -/
def setLeft (b : NodeSlot) (v : Nat) : NodeSlot := { b with left := b.left.set v }
/-- Sets the right link. -/
def setRight (b : NodeSlot) (v : Nat) : NodeSlot := { b with right := b.right.set v }
/-- Sets both cached child heights. -/
def setDepths (b : NodeSlot) (l r : Nat) : NodeSlot :=
  { b with leftDepth := b.leftDepth.set l, rightDepth := b.rightDepth.set r }

/-- Whether any field or the payload is dirty. -/
def dirty (b : NodeSlot) : Bool :=
  b.parent.dirty || b.left.dirty || b.leftDepth.dirty || b.right.dirty || b.rightDepth.dirty ||
    b.len.dirty || b.payload.dirty

/-- Writes the dirty fields in slot order, then the payload. -/
def flush (b : NodeSlot) (d : Disk) (s : Nat) : NodeSlot × Disk :=
  let (parent, d) := b.parent.flush d s
  let (left, d) := b.left.flush d s
  let (leftDepth, d) := b.leftDepth.flush d s
  let (right, d) := b.right.flush d s
  let (rightDepth, d) := b.rightDepth.flush d s
  let (len, d) := b.len.flush d s
  let (payload, d) := b.payload.flush d s
  ({ b with parent, left, leftDepth, right, rightDepth, len, payload }, d)

end NodeSlot

end ColumnDb.Slot
