import ColumnDb.Slot.BlockFile
import ColumnDb.Value.Basic

/-!
# Data files

A data file keeps each row's value in one length-prefixed slot, the slot's
id being the row id. Slots are read into a cache on first use and written
back by the next flush, which empties the cache.

A value is checked against the payload size when it is added; an update of a
row that exists replaces its payload, which refuses a value too large for it.
Reading a row decodes its payload and leaves the slot cached either way.
-/

namespace ColumnDb.Data

open ColumnDb.Slot ColumnDb.Disk

/-- Bytes of the data file header. -/
def dataHeader : Nat := 12

/-- A file of values of one kind, one slot per row. -/
structure DataFile where
  core : BlockFile
  kind : ValueKind
  records : Std.TreeMap Nat ChunkSlot
deriving Inhabited

/-- An operation on a data file. -/
abbrev DataOp := FileOp DataFile

namespace DataFile

/-- Opens a data file on a store. -/
def «open» (d : Disk) (store : StoreRef) (label : String) (kind : ValueKind) (capacity : Nat) :
    Except FileError DataFile := do
  let core ← BlockFile.open d store label dataHeader chunkHeader capacity
  return ⟨core, kind, ∅⟩

/-- Runs an operation of the shared file part. -/
def onCore {α : Type} (m : FileOp BlockFile α) : DataOp α :=
  FileOp.zoom (·.core) (fun t c => { t with core := c }) m

/-- The slot of a row, read into the cache if needed. -/
def record (id : Nat) : DataOp ChunkSlot := do
  let t ← FileOp.self
  match t.records[id]? with
  | some r => pure r
  | none =>
    let r := ChunkSlot.load (← FileOp.disk) t.core.sid t.core.layout id
    FileOp.modify fun t => { t with records := t.records.insert id r }
    pure r

/-- Allocated ids, ascending. -/
def ids (t : DataFile) : List Nat := t.core.allocatedIds

/-- Adds a value under a given id, or under a free one, and answers the id. -/
def add (v : Value) (id? : Option Nat) : DataOp Nat := do
  onCore BlockFile.ensureOpen
  let bytes := v.encode
  let t ← FileOp.self
  let capacity := ChunkSlot.payloadCapacity t.core.layout
  if bytes.length > capacity then FileOp.fail (.slot (.tooLarge bytes.length capacity))
  else
    let id ← onCore (BlockFile.claim id?)
    match ChunkSlot.create t.core.layout id bytes with
    | .error f => FileOp.fail (.slot f)
    | .ok r =>
      FileOp.modify fun t => { t with records := t.records.insert id r }
      pure id

/-- The value of a row, if the id is allocated. -/
def get (id : Nat) : DataOp (Option Value) := do
  onCore BlockFile.ensureOpen
  let t ← FileOp.self
  if !t.core.isAllocated id then pure none
  else
    let r ← record id
    match t.kind.decode r.data with
    | .ok v => pure (some v)
    | .error f => FileOp.fail (.slot (.undecodable f))

/-- Gives a row a new value; an id not allocated is added with the value. -/
def update (id : Nat) (v : Value) : DataOp Unit := do
  onCore BlockFile.ensureOpen
  if !(← FileOp.self).core.isAllocated id then discard (add v (some id))
  else
    let r ← record id
    match r.setData v.encode with
    | .error f => FileOp.fail (.slot f)
    | .ok r => FileOp.modify fun t => { t with records := t.records.insert id r }

/-- Deletes a row, answering whether it was allocated. -/
def delete (id : Nat) : DataOp Bool := do
  onCore BlockFile.ensureOpen
  if !(← FileOp.self).core.isAllocated id then pure false
  else
    FileOp.modify fun t => { t with records := t.records.erase id }
    onCore (BlockFile.release id)
    pure true

/-- Writes every cached slot and the shared header; the cache is emptied. -/
def flush : DataOp Unit := do
  onCore BlockFile.ensureOpen
  FileOp.write fun d t =>
    let d := t.records.foldl (fun d _ r => (r.flush d t.core.sid).2) d
    ({ t with records := ∅ }, d)
  onCore BlockFile.flush

/-- Flushes and closes the file; disposing twice does nothing. -/
def dispose : DataOp Unit := do
  if (← FileOp.self).core.disposed then pure ()
  else
    flush
    onCore BlockFile.dispose

/-- Removes the file's store. -/
def destroy : DataOp Unit := onCore BlockFile.destroy

end DataFile

end ColumnDb.Data
