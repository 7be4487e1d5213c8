import ColumnDb.Tree.Shape
import ColumnDb.Order.Comparison

/-!
# Tree file operations

The column operations of a tree file: adding a value under a new or a given
id, reading, repositioning a node whose value changed, deleting, ordered
walks and range searches, flushing the cache, disposing and destroying.

A range search prunes by the comparison: for `>` and `>=` a node that
matches has only matches to its right, so that side is walked without
comparing; for `<` and `<=` the same holds to its left; for `==` both sides
are searched below a match.
-/

namespace ColumnDb.Tree

open ColumnDb.Slot ColumnDb.Disk

namespace TreeFile

/-- Appends a node's id and value. -/
def emit (id : Nat) (out : Array (Nat × Value)) : TreeOp (Array (Nat × Value)) := do
  return out.push (id, (← node id).value)

/-- Appends the nodes below an id in value order. -/
def walkFor : Nat → Nat → Array (Nat × Value) → TreeOp (Array (Nat × Value))
  | 0, _, out => pure out
  | fuel + 1, id, out =>
    if id == 0 then pure out
    else do
      let l ← links id
      let out ← walkFor fuel l.left.value out
      let out ← emit id out
      walkFor fuel l.right.value out

/-- Appends the nodes below an id whose value satisfies the comparison, in value order. -/
def searchFor (cmp : Comparison) (operand : Value) :
    Nat → Nat → Array (Nat × Value) → TreeOp (Array (Nat × Value))
  | 0, _, out => pure out
  | fuel + 1, id, out =>
    if id == 0 then pure out
    else do
      let l ← links id
      let ordering := (← node id).value.compare operand
      match cmp with
      | .gt | .ge =>
        if cmp.accepts ordering then do
          let out ← searchFor cmp operand fuel l.left.value out
          let out ← emit id out
          walkFor fuel l.right.value out
        else searchFor cmp operand fuel l.right.value out
      | .lt | .le =>
        if cmp.accepts ordering then do
          let out ← walkFor fuel l.left.value out
          let out ← emit id out
          searchFor cmp operand fuel l.right.value out
        else searchFor cmp operand fuel l.left.value out
      | .eq =>
        match ordering with
        | .gt => searchFor cmp operand fuel l.left.value out
        | .lt => searchFor cmp operand fuel l.right.value out
        | .eq => do
          let out ← searchFor cmp operand fuel l.left.value out
          let out ← emit id out
          searchFor cmp operand fuel l.right.value out

/-- The root id, 0 for an empty tree. -/
def rootId (t : TreeFile) : Nat := t.root.value

/-- Every row in value order. -/
def all : TreeOp (List (Nat × Value)) := do
  onCore BlockFile.ensureOpen
  let t ← FileOp.self
  return (← walkFor linkBound t.rootId #[]).toList

/-- The rows whose value satisfies a comparison against an operand, in value order. -/
def range (cmp : Comparison) (operand : Value) : TreeOp (List (Nat × Value)) := do
  onCore BlockFile.ensureOpen
  let t ← FileOp.self
  return (← searchFor cmp operand linkBound t.rootId #[]).toList

/-- Refuses a value whose encoding does not fit a node's payload. -/
def checkFits (v : Value) : TreeOp Unit := do
  let t ← FileOp.self
  let len := v.encode.length
  let capacity := NodeSlot.payloadCapacity t.core.layout
  if len > capacity then FileOp.fail (.slot (.tooLarge len capacity)) else pure ()

/-- Adds a value under a given id, or under a free one, and answers the id. -/
def add (v : Value) (id? : Option Nat) : TreeOp Nat := do
  onCore BlockFile.ensureOpen
  checkFits v
  let id ← onCore (BlockFile.claim id?)
  let t ← FileOp.self
  match NodeSlot.create t.core.layout id v.encode with
  | .error f => FileOp.fail (.slot f)
  | .ok slot =>
    FileOp.modify fun t => { t with nodes := t.nodes.insert id ⟨slot, v⟩ }
    attach id
    pure id

/-- The value of a row, if the id is allocated. -/
def get (id : Nat) : TreeOp (Option Value) := do
  onCore BlockFile.ensureOpen
  if !(← FileOp.self).core.isAllocated id then pure none
  else return some (← node id).value

/-- Gives a row a new value, moving its node to the new value's place; an id not allocated
is added with the value. -/
def update (id : Nat) (v : Value) : TreeOp Unit := do
  onCore BlockFile.ensureOpen
  if !(← FileOp.self).core.isAllocated id then discard (add v (some id))
  else
    checkFits v
    detach id
    let n ← node id
    match n.slot.setData v.encode with
    | .error f => FileOp.fail (.slot f)
    | .ok slot =>
      FileOp.modify fun t => { t with nodes := t.nodes.insert id ⟨slot, v⟩ }
      attach id

/-- Deletes a row, answering whether it was allocated. -/
def delete (id : Nat) : TreeOp Bool := do
  onCore BlockFile.ensureOpen
  if !(← FileOp.self).core.isAllocated id then pure false
  else
    detach id
    FileOp.modify fun t => { t with nodes := t.nodes.erase id }
    onCore (BlockFile.release id)
    pure true

/-- Whether an id is allocated. -/
def contains (t : TreeFile) (id : Nat) : Bool := t.core.isAllocated id

/-- Writes the root, every cached node, and the shared header; the cache is emptied. -/
def flush : TreeOp Unit := do
  onCore BlockFile.ensureOpen
  FileOp.write fun d t =>
    let (root, d) := t.root.flush d t.core.sid
    let d := t.nodes.foldl (fun d _ n => (n.slot.flush d t.core.sid).2) d
    ({ t with root, nodes := ∅ }, d)
  onCore BlockFile.flush

/-- Flushes and closes the file; disposing twice does nothing. -/
def dispose : TreeOp Unit := do
  if (← FileOp.self).core.disposed then pure ()
  else
    flush
    onCore BlockFile.dispose

/-- Removes the file's store. -/
def destroy : TreeOp Unit := onCore BlockFile.destroy

end TreeFile

end ColumnDb.Tree
