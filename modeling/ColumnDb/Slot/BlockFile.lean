import ColumnDb.Slot.Allocator

/-!
# Block files

What every slot file shares: a label for messages, the store it lives on,
the slot layout, a header cell holding the slot capacity, the allocator, and
whether the file was created empty and whether it has been disposed.

```text
| latest id (8) | capacity (4) | kind fields … | slot 0 | slot 1 | …
```

Opening an empty store creates a file; opening a stored one reads its
capacity and refuses another one, then reads its free chain. A slot must be
larger than its kind's slot header.

Operations on a file run in `FileOp`: they see the disk and the file, and
keep every change they made even when they fail, as a real store does.
-/

namespace ColumnDb.Slot

open ColumnDb.Disk

/-- Where a file's bytes live: a store, and the path naming it when it is a file on disk. -/
structure StoreRef where
  store : Nat
  path : Option String
deriving DecidableEq, Repr, Inhabited

/-- Removes the file a store reference names. A store no path names goes without fault; a
path that no longer names a file is reported. -/
def StoreRef.remove (r : StoreRef) (d : Disk) : Except FileError Disk :=
  match r.path with
  | none => .ok d
  | some p => match d.unlink p with
    | some d => .ok d
    | none => .error (.removed p)

/-- Opens the file at a path as a store, creating it if it is missing. A path the file system
refuses (`pathFault?`) names no file. -/
def StoreRef.create (d : Disk) (path : String) : Except FileError (StoreRef × Disk) :=
  match pathFault? path with
  | some m => .error (.io m)
  | none =>
    match d.openFile path with
    | .ok (s, d) => .ok (⟨s, some path⟩, d)
    | .error m => .error (.io m)

/-- An operation on a slot file `σ` and the disk under it. -/
abbrev FileOp (σ : Type) := EStateM FileError (Disk × σ)

namespace FileOp

/-- Runs an operation on a part of the state. -/
def zoom {σ τ α : Type} (get : σ → τ) (put : σ → τ → σ) (m : FileOp τ α) : FileOp σ α :=
  fun (d, s) => match m (d, get s) with
    | .ok a (d', t) => .ok a (d', put s t)
    | .error e (d', t) => .error e (d', put s t)

/-- The state of the file. -/
def self {σ : Type} : FileOp σ σ := fun st => .ok st.2 st

/-- The disk. -/
def disk {σ : Type} : FileOp σ Disk := fun st => .ok st.1 st

/-- Changes the file. -/
def modify {σ : Type} (f : σ → σ) : FileOp σ Unit := fun (d, s) => .ok () (d, f s)

/-- Changes the file by a function that also reads the disk and answers. -/
def step {σ α : Type} (f : Disk → σ → α × σ) : FileOp σ α :=
  fun (d, s) => let (a, s) := f d s; .ok a (d, s)

/-- Changes the disk and the file together. -/
def write {σ : Type} (f : Disk → σ → σ × Disk) : FileOp σ Unit :=
  fun (d, s) => let (s, d) := f d s; .ok () (d, s)

/-- Fails. -/
def fail {σ α : Type} (e : FileError) : FileOp σ α := fun st => .error e st

end FileOp

/-- The shared part of every slot file. -/
structure BlockFile where
  label : String
  store : StoreRef
  layout : Layout
  capacity : Cell
  allocator : Allocator
  created : Bool
  disposed : Bool
deriving Inhabited

namespace BlockFile

/-- Opens the file on a store: `header` bytes of file header, slots of `capacity` bytes whose
own header takes `slotHeader` bytes. -/
def «open» (d : Disk) (store : StoreRef) (label : String) (header slotHeader capacity : Nat) :
    Except FileError BlockFile :=
  if capacity ≤ slotHeader then .error (.invalidCapacity capacity)
  else
    let layout : Layout := ⟨header, capacity⟩
    if d.size store.store == 0 then
      .ok ⟨label, store, layout, Cell.create 8 4 capacity, Allocator.create layout, true, false⟩
    else
      let stored := Cell.load d store.store 8 4
      if stored.value != capacity then .error (.capacityMismatch label stored.value capacity)
      else match Allocator.open d store.store layout with
        | .error c => .error (.corrupt c)
        | .ok allocator => .ok ⟨label, store, layout, stored, allocator, false, false⟩

/-- The store number. -/
def sid (f : BlockFile) : Nat := f.store.store

/-- The highest id ever handed out. -/
def latest (f : BlockFile) : Nat := f.allocator.latest.value

/-- The number of free ids. -/
def freeCount (f : BlockFile) : Nat := f.allocator.free.length

/-- Whether an id is handed out. -/
def isAllocated (f : BlockFile) (id : Nat) : Bool := f.allocator.isAllocated id

/-- The allocated ids, ascending. -/
def allocatedIds (f : BlockFile) : List Nat := (List.range' 1 f.latest).filter f.isAllocated

/-- Fails once the file is disposed. -/
def ensureOpen : FileOp BlockFile Unit := do
  let f ← FileOp.self
  if f.disposed then FileOp.fail (.disposed f.label) else pure ()

/-- Hands out a free id. -/
def nextFreeId : FileOp BlockFile Nat :=
  FileOp.step fun d f =>
    let (id, a) := f.allocator.nextFreeId d f.sid
    (id, { f with allocator := a })

/-- Claims the given id, or hands out a free one. -/
def claim (id? : Option Nat) : FileOp BlockFile Nat :=
  match id? with
  | none => nextFreeId
  | some id => do
    let d ← FileOp.disk
    let f ← FileOp.self
    match f.allocator.tryUse d f.sid id with
    | some a => do FileOp.modify fun f => { f with allocator := a }; pure id
    | none => FileOp.fail (.idInUse id)

/-- Frees an allocated id. -/
def release (id : Nat) : FileOp BlockFile Unit :=
  FileOp.step fun d f => ((), { f with allocator := f.allocator.release d f.sid id })

/-- Writes the capacity cell, then the allocator. -/
def flush : FileOp BlockFile Unit :=
  FileOp.write fun d f =>
    let (capacity, d) := f.capacity.flush d f.sid
    let (allocator, d) := f.allocator.flush d f.sid
    ({ f with capacity, allocator }, d)

/-- Flushes and closes the file; a second disposal does nothing. -/
def dispose : FileOp BlockFile Unit := do
  let f ← FileOp.self
  if f.disposed then pure ()
  else
    flush
    FileOp.modify fun f => { f with disposed := true }

/-- Removes the file from its disk. -/
def destroy : FileOp BlockFile Unit := fun (d, f) =>
  match f.store.remove d with
  | .ok d => .ok () (d, f)
  | .error e => .error e (d, f)

end BlockFile

end ColumnDb.Slot
