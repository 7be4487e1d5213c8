import ColumnDb.Slot.Basic

/-!
# Reading a file as stored

What a store's bytes say, read without opening the file: the header's
latest id and slot capacity, the free chain from slot 0, and for a tree
file the root and the nodes reachable from it. Nothing here goes through a
file's caches, so it shows exactly what the last flush wrote.

A chain or a tree read from damaged bytes may loop; each walk stops at the
first id it has seen before, and takes at most as many steps as the store
has bytes, which no loop-free walk exceeds: ids whose slots lie past the
end read as zeros and end the walk.
-/

namespace ColumnDb.Slot

open ColumnDb.Disk ColumnDb.Bytes

/-- The header and free chain of a stored file. -/
structure StoredLayout where
  length : Nat
  latest : Nat
  capacity : Nat
  free : List Nat
  root : Option Nat
deriving DecidableEq, Repr

/-- A stored tree node's links, heights and payload length. -/
structure StoredNode where
  id : Nat
  parent : Nat
  left : Nat
  right : Nat
  leftDepth : Nat
  rightDepth : Nat
  length : Nat
deriving DecidableEq, Repr

/-- The stored capacity of a file. -/
def storedCapacity (d : Disk) (s : Nat) : Nat := readLE (d.read s 8 4)

/-- The stored root of a tree file. -/
def storedRoot (d : Disk) (s : Nat) : Nat := readLE (d.read s 12 8)

/-- The slot link stored at the start of a slot. -/
def storedLink (d : Disk) (s : Nat) (l : Layout) (id : Nat) : Nat := readLE (d.read s (l.offset id) 8)

/-- Follows stored slot links from `current` until a 0 or an id already seen. -/
def followLinks (d : Disk) (s : Nat) (l : Layout) : Nat → Nat → List Nat → List Nat
  | 0, _, seen => seen.reverse
  | fuel + 1, current, seen =>
    if current == 0 || seen.contains current then seen.reverse
    else followLinks d s l fuel (storedLink d s l current) (current :: seen)

/-- Reads the header and free chain of a stored file with the given header size; a tree file
also shows its root. -/
def readLayout (d : Disk) (s header : Nat) (tree : Bool) : StoredLayout :=
  let l : Layout := ⟨header, storedCapacity d s⟩
  { length := d.size s
    latest := readLE (d.read s 0 8)
    capacity := l.capacity
    free := followLinks d s l (d.size s + 2) (storedLink d s l 0) []
    root := if tree then some (storedRoot d s) else none }

/-- Reads one stored tree node. -/
def readNode (d : Disk) (s : Nat) (l : Layout) (id : Nat) : StoredNode :=
  let b := NodeSlot.load d s l id
  ⟨id, b.parent.value, b.left.value, b.right.value, b.leftDepth.value, b.rightDepth.value, b.len.value⟩

/-- Collects the nodes reachable from the pending ids, each once. -/
def reachNodes (d : Disk) (s : Nat) (l : Layout) :
    Nat → List Nat → List StoredNode → List StoredNode
  | 0, _, found => found
  | _ + 1, [], found => found
  | fuel + 1, id :: pending, found =>
    if id == 0 || found.any (·.id == id) then reachNodes d s l fuel pending found
    else
      let n := readNode d s l id
      reachNodes d s l fuel (n.left :: n.right :: pending) (n :: found)

/-- Inserts a node into a list sorted by id. -/
def insertById (n : StoredNode) : List StoredNode → List StoredNode
  | [] => [n]
  | m :: ms => if n.id ≤ m.id then n :: m :: ms else m :: insertById n ms

/-- The stored root of a tree file and the nodes reachable from it, sorted by id. -/
def readTree (d : Disk) (s : Nat) : Nat × List StoredNode :=
  let l : Layout := ⟨20, storedCapacity d s⟩
  let root := storedRoot d s
  (root, (reachNodes d s l (3 * d.size s + 4) [root] []).foldr insertById [])

end ColumnDb.Slot
