import ColumnDb.Slot.BlockFile

/-!
# Blob files

A blob file keeps byte strings of any length. A blob is cut into pieces of
at most one payload each and stored in a chain of length-prefixed slots
linked by their `next` fields; the first slot's id is the row id, and the
other slots are handed out by the same allocator, so they count as
allocated ids too. An empty blob still takes one slot.

Writing over a blob reuses its slots in place: extra slots are released from
the end, missing ones are taken from the allocator, and then each slot gets
its piece and its link.

Reading a chain trusts no link: a link beyond the latest id, or a chain
longer than there are ids, is corruption. A cached blob is taken out of the
cache while it is worked on and put back after.
-/

namespace ColumnDb.Blob

open ColumnDb.Slot ColumnDb.Disk

/-- Bytes of the blob file header. -/
def blobHeader : Nat := 12

/-- Cuts bytes into pieces of `size + 1` bytes, the last one possibly shorter. -/
def pieces (size : Nat) (bs : List UInt8) : List (List UInt8) :=
  if h : bs = [] then []
  else bs.take (size + 1) :: pieces size (bs.drop (size + 1))
termination_by bs.length
decreasing_by
  simp only [List.length_drop]
  have : 0 < bs.length := List.length_pos_iff.mpr h
  omega

/-- A blob's chain of slots, first slot first. -/
abbrev Chain := List ChunkSlot

/-- The bytes a chain holds. -/
def Chain.data (c : Chain) : List UInt8 := c.flatMap ChunkSlot.data

/-- Writes a chain's pending changes, slot by slot, leaving every slot clean. -/
def Chain.flush : Chain → Disk → Nat → Chain × Disk
  | [], d, _ => ([], d)
  | b :: rest, d, s =>
    let (b, d) := b.flush d s
    let (rest, d) := Chain.flush rest d s
    (b :: rest, d)

/-- A file of byte strings. -/
structure BlobFile where
  core : BlockFile
  records : Std.TreeMap Nat Chain
deriving Inhabited

/-- An operation on a blob file. -/
abbrev BlobOp := FileOp BlobFile

namespace BlobFile

/-- Opens a blob file on a store. -/
def «open» (d : Disk) (store : StoreRef) (label : String) (capacity : Nat) :
    Except FileError BlobFile := do
  let core ← BlockFile.open d store label blobHeader chunkHeader capacity
  return ⟨core, ∅⟩

/-- Runs an operation of the shared file part. -/
def onCore {α : Type} (m : FileOp BlockFile α) : BlobOp α :=
  FileOp.zoom (·.core) (fun t c => { t with core := c }) m

/-- Reads the chain from `start`, `next` being the slot to read now. -/
def loadFrom (d : Disk) (core : BlockFile) (start : Nat) :
    Nat → Nat → Chain → Except FileError Chain
  | 0, next, _ => .error (.corrupt (.blobLink start next))
  | fuel + 1, next, acc =>
    if next == 0 then .ok acc.reverse
    else if next > core.latest || acc.length ≥ core.latest then
      .error (.corrupt (.blobLink start next))
    else
      let slot := ChunkSlot.load d core.sid core.layout next
      loadFrom d core start fuel slot.next.value (slot :: acc)

/-- Reads the chain of a blob from the store. -/
def load (id : Nat) : BlobOp Chain := do
  let t ← FileOp.self
  match loadFrom (← FileOp.disk) t.core id (t.core.latest + 1) id [] with
  | .ok c => pure c
  | .error e => FileOp.fail e

/-- Takes the chain of a blob out of the cache, or reads it. -/
def take (id : Nat) : BlobOp Chain := do
  match (← FileOp.self).records[id]? with
  | some c =>
    FileOp.modify fun t => { t with records := t.records.erase id }
    pure c
  | none => load id

/-- Puts a chain into the cache. -/
def putBack (id : Nat) (c : Chain) : BlobOp Unit :=
  FileOp.modify fun t => { t with records := t.records.insert id c }

/-- Releases the slots past the first `needed`, from the end. -/
def shrink (needed : Nat) (c : Chain) : BlobOp Chain := do
  for slot in (c.drop needed).reverse do
    onCore (BlockFile.release slot.id)
  pure (c.take needed)

/-- Appends `count` new empty slots taken from the allocator. -/
def grow : Nat → Chain → BlobOp Chain
  | 0, c => pure c
  | count + 1, c => do
    let id ← onCore BlockFile.nextFreeId
    let layout := (← FileOp.self).core.layout
    match ChunkSlot.create layout id [] with
    | .error f => FileOp.fail (.slot f)
    | .ok slot => grow count (c ++ [slot])

/-- Gives each slot its piece (none past the pieces) and its link to the next slot. -/
def fill : Chain → List (List UInt8) → BlobOp Chain
  | [], _ => pure []
  | slot :: rest, ps => do
    match slot.setData (ps.headD []) with
    | .error f => FileOp.fail (.slot f)
    | .ok slot =>
      let slot := slot.setNext (match rest with | s :: _ => s.id | [] => 0)
      return slot :: (← fill rest ps.tail)

/-- Writes over a chain so that it holds `data`. -/
def write (c : Chain) (data : List UInt8) : BlobOp Chain := do
  let layout := (← FileOp.self).core.layout
  let ps := pieces (ChunkSlot.payloadCapacity layout - 1) data
  let needed := max ps.length 1
  let c ← shrink needed c
  let c ← grow (needed - c.length) c
  fill c ps

/-- Adds a blob under a given id, or under a free one, and answers the id. -/
def add (data : List UInt8) (id? : Option Nat) : BlobOp Nat := do
  onCore BlockFile.ensureOpen
  let id ← onCore (BlockFile.claim id?)
  let layout := (← FileOp.self).core.layout
  match ChunkSlot.create layout id [] with
  | .error f => FileOp.fail (.slot f)
  | .ok first =>
    let c ← write [first] data
    putBack id c
    pure id

/-- The blob of a row, if the id is allocated. -/
def get (id : Nat) : BlobOp (Option (List UInt8)) := do
  onCore BlockFile.ensureOpen
  if !(← FileOp.self).core.isAllocated id then pure none
  else
    let c ← take id
    putBack id c
    pure (some c.data)

/-- Gives a row a new blob; an id not allocated is added with it. -/
def update (id : Nat) (data : List UInt8) : BlobOp Unit := do
  onCore BlockFile.ensureOpen
  if !(← FileOp.self).core.isAllocated id then discard (add data (some id))
  else
    let c ← take id
    let c ← write c data
    putBack id c

/-- Gives every slot of a chain back to the free chain, first slot first. -/
def releaseChain (c : Chain) : BlobOp Unit :=
  c.forM fun slot => onCore (BlockFile.release slot.id)

/-- Whether an id is allocated: the first slot of a blob, or any slot a blob continues in. -/
def contains (f : BlobFile) (id : Nat) : Bool := f.core.isAllocated id

/-- Deletes a row and releases its slots, answering whether it was allocated. -/
def delete (id : Nat) : BlobOp Bool := do
  onCore BlockFile.ensureOpen
  if !(← FileOp.self).core.isAllocated id then pure false
  else
    releaseChain (← take id)
    pure true

/-- Writes every cached chain and the shared header; the cache is emptied. -/
def flush : BlobOp Unit := do
  onCore BlockFile.ensureOpen
  FileOp.write fun d t =>
    let d := t.records.foldl (fun d _ c => (c.flush d t.core.sid).2) d
    ({ t with records := ∅ }, d)
  onCore BlockFile.flush

/-- Flushes and closes the file; disposing twice does nothing. -/
def dispose : BlobOp Unit := do
  if (← FileOp.self).core.disposed then pure ()
  else
    flush
    onCore BlockFile.dispose

/-- Removes the file's store. -/
def destroy : BlobOp Unit := onCore BlockFile.destroy

end BlobFile

end ColumnDb.Blob
