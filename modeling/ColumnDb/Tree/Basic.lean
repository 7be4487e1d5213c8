import ColumnDb.Slot.BlockFile
import ColumnDb.Value.Basic

/-!
# Tree files

A tree file keeps the values of one kind in an AVL tree whose nodes are the
rows' own slots, so a row id is also a node id. Links are slot ids, 0 meaning
none. The file header adds the root id after the capacity:

```text
| latest id (8) | capacity (4) | root id (8) | slot 0 | slot 1 | …
```

Nodes are read into a cache keyed by id on first use, changed there, and
written by the next flush, which empties the cache. A node is only ever named
by its id, so every step below reads it afresh from the cache.
-/

namespace ColumnDb.Tree

open ColumnDb.Slot ColumnDb.Disk

/-- Bytes of the tree file header. -/
def treeHeader : Nat := 20

/-- A node in the cache: its slot and its decoded value. -/
structure Node where
  slot : NodeSlot
  value : Value
deriving Inhabited

/-- A tree file of values of one kind. -/
structure TreeFile where
  core : BlockFile
  kind : ValueKind
  root : Cell
  nodes : Std.TreeMap Nat Node
deriving Inhabited

/-- An operation on a tree file. -/
abbrev TreeOp := FileOp TreeFile

namespace TreeFile

/-- Opens a tree file on a store: a new file starts with no root. -/
def «open» (d : Disk) (store : StoreRef) (label : String) (kind : ValueKind) (capacity : Nat) :
    Except FileError TreeFile := do
  let core ← BlockFile.open d store label treeHeader nodeHeader capacity
  let root := if core.created then Cell.create 12 8 0 else Cell.load d store.store 12 8
  return ⟨core, kind, root, ∅⟩

/-- Runs an operation of the shared file part. -/
def onCore {α : Type} (m : FileOp BlockFile α) : TreeOp α :=
  FileOp.zoom (·.core) (fun t c => { t with core := c }) m

/-- The steps a walk along links is given: one per 64-bit id, more than any path of distinct
nodes takes. Links that lead back to a node on the path keep a walk going for all of them. -/
def linkBound : Nat := Nat.pow 256 8

/-- The node with an id, read into the cache if needed. Id 0 is no node. -/
def node (id : Nat) : TreeOp Node := do
  let t ← FileOp.self
  if id == 0 then FileOp.fail (.corrupt (.nullLink t.core.label))
  else match t.nodes[id]? with
    | some n => pure n
    | none =>
      let d ← FileOp.disk
      let slot := NodeSlot.load d t.core.sid t.core.layout id
      match t.kind.decode slot.data with
      | .error f => FileOp.fail (.slot (.undecodable f))
      | .ok v =>
        let n : Node := ⟨slot, v⟩
        FileOp.modify fun t => { t with nodes := t.nodes.insert id n }
        pure n

/-- The slot of a node. -/
def links (id : Nat) : TreeOp NodeSlot := do return (← node id).slot

/-- Changes the slot of a node. -/
def change (id : Nat) (f : NodeSlot → NodeSlot) : TreeOp Unit := do
  let n ← node id
  FileOp.modify fun t => { t with nodes := t.nodes.insert id { n with slot := f n.slot } }

/-- The height of the subtree under an id, from the node's cached child heights. -/
def depthOf (id : Nat) : TreeOp Nat := do
  if id == 0 then pure 0 else return (← links id).depth

/-- Recomputes a node's cached child heights from its children. -/
def refresh (id : Nat) : TreeOp Unit := do
  let l ← links id
  let left ← depthOf l.left.value
  let right ← depthOf l.right.value
  change id (·.setDepths left right)

/-- Left height minus right height, from the cached heights. -/
def balance (id : Nat) : TreeOp Int := do
  let l ← links id
  return (l.leftDepth.value : Int) - l.rightDepth.value

/-- Makes `new` take the place of `old` under `parent`, or at the root when `parent` is 0. -/
def replaceChild (parent old new : Nat) : TreeOp Unit :=
  if parent == 0 then FileOp.modify fun t => { t with root := t.root.set new }
  else change parent fun b => if b.left.value == old then b.setLeft new else b.setRight new

end TreeFile

end ColumnDb.Tree
