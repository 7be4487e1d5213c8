import ColumnDb.Slot.FreeChain

/-!
# Allocating slot ids

Ids come from two sources: the free chain (released slots, handed out from
its tail) and the high-water mark `latest`, a cell at the start of the file.
An id is allocated when it is neither 0, nor above `latest`, nor free.

A caller may also claim one id: a free id leaves the chain; an id above
`latest` raises `latest` to it and frees every id skipped on the way, in
ascending order; 0 and an allocated id are refused. This is how every column
of a collection stores a row under the id its key column chose.
-/

namespace ColumnDb.Slot

open ColumnDb.Disk

/-- The allocator of a slot file. -/
structure Allocator where
  latest : Cell
  free : FreeChain
deriving Inhabited

namespace Allocator

/-- The allocator of a new file. -/
def create (l : Layout) : Allocator := ⟨Cell.create 0 8 0, FreeChain.create l⟩

/-- Reads the allocator of a stored file. -/
def «open» (d : Disk) (s : Nat) (l : Layout) : Except Corruption Allocator := do
  let latest := Cell.load d s 0 8
  let free ← FreeChain.open d s l latest.value
  return ⟨latest, free⟩

/-- Whether an id is handed out. -/
def isAllocated (a : Allocator) (id : Nat) : Bool :=
  id != 0 && id ≤ a.latest.value && !a.free.contains id

/-- Hands out the tail of the free chain, or the id after `latest`. -/
def nextFreeId (a : Allocator) (d : Disk) (s : Nat) : Nat × Allocator :=
  match a.free.popTail d s with
  | (some id, free) => (id, { a with free })
  | (none, _) =>
    let id := a.latest.value + 1
    (id, { a with latest := a.latest.set id })

/-- Claims one id; `none` when it is 0 or allocated. -/
def tryUse (a : Allocator) (d : Disk) (s : Nat) (id : Nat) : Option Allocator :=
  if id == 0 then none
  else if id ≤ a.latest.value then
    match a.free.remove d s id with
    | (true, free) => some { a with free }
    | (false, _) => none
  else
    let skipped := List.range' (a.latest.value + 1) (id - a.latest.value - 1)
    let free := skipped.foldl (fun c k => c.push d s k) a.free
    some { latest := a.latest.set id, free }

/-- Puts an allocated id on the free chain; any other id is left alone. -/
def release (a : Allocator) (d : Disk) (s : Nat) (id : Nat) : Allocator :=
  if a.isAllocated id then { a with free := a.free.push d s id } else a

/-- Writes `latest`, then the touched chain slots. -/
def flush (a : Allocator) (d : Disk) (s : Nat) : Allocator × Disk :=
  let (latest, d) := a.latest.flush d s
  let (free, d) := a.free.flush d s
  ({ latest, free }, d)

end Allocator

end ColumnDb.Slot
