import ColumnDb.Tree.Basic

/-!
# Tree shape

Hanging a node into the tree, rebalancing on the way back to the root, and
taking a node out again. The steps work on ids only and read every link
afresh, so a rotation below a node is seen by whatever step comes next.

Descending from the root takes at most `latest` steps; more means a cycle,
which is reported. Every other walk along links checks nothing and is given
`linkBound` steps, one per 64-bit id: more than any path of distinct nodes
takes, and no end at all in practice for links that loop.
-/

namespace ColumnDb.Tree

open ColumnDb.Slot ColumnDb.Disk

namespace TreeFile

/-- Rotates the subtree at `z` to the right and answers its new root, the former left child. -/
def rotateRight (z : Nat) : TreeOp Nat := do
  let zl ← links z
  let y := zl.left.value
  let t := (← links y).right.value
  change z (·.setLeft t)
  if t != 0 then change t (·.setParent z)
  change y fun b => (b.setRight z).setParent zl.parent.value
  change z (·.setParent y)
  replaceChild zl.parent.value z y
  refresh z
  refresh y
  pure y

/-- Rotates the subtree at `z` to the left and answers its new root, the former right child. -/
def rotateLeft (z : Nat) : TreeOp Nat := do
  let zl ← links z
  let y := zl.right.value
  let t := (← links y).left.value
  change z (·.setRight t)
  if t != 0 then change t (·.setParent z)
  change y fun b => (b.setLeft z).setParent zl.parent.value
  change z (·.setParent y)
  replaceChild zl.parent.value z y
  refresh z
  refresh y
  pure y

/-- Restores the balance of one node after its heights were refreshed, answering the root of
its subtree: a double rotation when the taller child leans the other way. -/
def rebalance (current : Nat) : TreeOp Nat := do
  let b ← balance current
  if b > 1 then
    let left := (← links current).left.value
    if (← balance left) < 0 then discard (rotateLeft left)
    rotateRight current
  else if b < -1 then
    let right := (← links current).right.value
    if (← balance right) > 0 then discard (rotateRight right)
    rotateLeft current
  else pure current

/-- Walks from a node to the root, refreshing heights and rebalancing each node on the way. -/
def retraceFor : Nat → Nat → TreeOp Unit
  | 0, _ => pure ()
  | fuel + 1, current =>
    if current == 0 then pure ()
    else do
      refresh current
      let top ← rebalance current
      retraceFor fuel (← links top).parent.value

/-- Rebalances from a node up to the root. -/
def retrace (start : Nat) : TreeOp Unit := retraceFor linkBound start

/-- Descends from `current` to the free child place for node `id` holding `value` and hangs it
there, answering its new parent. A node goes left only below a strictly larger value, so equal
values keep the order they came in. -/
def descend (id : Nat) (value : Value) (root : Nat) : Nat → Nat → TreeOp Nat
  | 0, _ => do FileOp.fail (.corrupt (.treeCycle (← FileOp.self).core.label root))
  | steps + 1, current => do
    let n ← node current
    let goLeft := n.value.compare value == .gt
    let child := if goLeft then n.slot.left.value else n.slot.right.value
    if child == 0 then
      change current fun b => if goLeft then b.setLeft id else b.setRight id
      change id (·.setParent current)
      pure current
    else descend id value root steps child

/-- Hangs a detached node into the tree and rebalances. -/
def attach (id : Nat) : TreeOp Unit := do
  let t ← FileOp.self
  let root := t.root.value
  if root == 0 then FileOp.modify fun t => { t with root := t.root.set id }
  else
    let value := (← node id).value
    let parent ← descend id value root t.core.latest root
    retrace parent

/-- The leftmost node below a node. -/
def minFor : Nat → Nat → TreeOp Nat
  | 0, current => pure current
  | fuel + 1, current => do
    let left := (← links current).left.value
    if left == 0 then pure current else minFor fuel left

/-- Takes out a node with at most one child, which takes its place, and rebalances above. -/
def unlink (id : Nat) : TreeOp Unit := do
  let l ← links id
  let child := if l.left.value == 0 then l.right.value else l.left.value
  if child != 0 then change child (·.setParent l.parent.value)
  replaceChild l.parent.value id child
  retrace l.parent.value

/-- Takes a node out of the tree, leaving its slot allocated and its links cleared. A node with
two children is replaced by its successor, which is first taken out of its own place; the
rebalancing that causes may rotate around the node, so its links are read again after. -/
def detach (id : Nat) : TreeOp Unit := do
  let l ← links id
  if l.left.value != 0 && l.right.value != 0 then
    let successor ← minFor linkBound l.right.value
    unlink successor
    let l ← links id
    change successor fun b =>
      (((b.setParent l.parent.value).setLeft l.left.value).setRight l.right.value).setDepths
        l.leftDepth.value l.rightDepth.value
    if l.left.value != 0 then change l.left.value (·.setParent successor)
    if l.right.value != 0 then change l.right.value (·.setParent successor)
    replaceChild l.parent.value id successor
  else unlink id
  change id fun b => (((b.setParent 0).setLeft 0).setRight 0).setDepths 0 0

end TreeFile

end ColumnDb.Tree
