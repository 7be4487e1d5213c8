import Mathlib
import ColumnDb.Proofs.BlobChain

/-!
# Which ids a blob file answers for

A blob file asks its allocator whether an id is taken, and the allocator counts every slot of a
blob: its first slot, whose id is the blob's, and the slots the blob continues in. So the file
keeps the contract of a map of blobs only at ids that continue no other blob
(`BlobFile.Continues`). There it contains the id exactly when a blob starts at it, reads that blob
or none, and a delete or an update at the id touches no other blob. At an id that continues
another blob it contains the id though no blob starts there, and a read or a delete reads the
store from that slot on: it answers some bytes, or `true`, or fails, and never answers as at an id
that holds nothing (`get_ne_none`, `delete_ne_false`).

`BlobEvent.runFile_contract_iff_not_continues` gathers this for every file that a run of events
reaches from a new file.
-/

set_option autoImplicit false

namespace ColumnDb.Blob

open ColumnDb.Slot ColumnDb.Disk

namespace BlobFile

/-- Some other blob than the one that would start at `x` continues in the slot `x`. -/
def Continues (f : BlobFile) (x : Nat) : Prop := ∃ y, y ≠ x ∧ x ∈ f.slots y

variable {d : Disk} {f : BlobFile} {M : Nat → Option (List UInt8)}

theorem contains_iff (f : BlobFile) (x : Nat) : f.contains x = true ↔ f.core.allocator.pool.Allocated x :=
  Allocator.isAllocated_iff _ _

/-- An id is allocated exactly when it is a slot of some blob. -/
theorem Stores.allocated_iff (h : f.Stores d M) (x : Nat) :
    f.core.allocator.pool.Allocated x ↔ ∃ y, x ∈ f.slots y :=
  h.splits.parts.allocated x

theorem Stores.getElem?_eq_none (h : f.Stores d M) {x : Nat} (hx : M x = none) : f.records[x]? = none := by
  rw [← h.blobs x] at hx
  exact Option.map_eq_none_iff.mp hx

/-- A blob starts at `x` exactly when `x` is a slot of the blob at `x`. -/
theorem Stores.isSome_iff (h : f.Stores d M) (x : Nat) : (M x).isSome ↔ x ∈ f.slots x := by
  constructor
  · intro hx
    obtain ⟨c, hc, -⟩ := h.getElem?_of_isSome hx
    rw [slots_of_getElem? hc]
    exact List.mem_of_mem_head? (h.first x c hc)
  · intro hx
    cases hc : f.records[x]? with
    | none => simp [slots, hc] at hx
    | some c => rw [← h.blobs x, hc]; rfl

/-- An id continues another blob exactly when it is allocated and no blob starts at it. -/
theorem Stores.continues_iff (h : f.Stores d M) (x : Nat) :
    f.Continues x ↔ f.core.allocator.pool.Allocated x ∧ M x = none := by
  rw [h.allocated_iff]
  constructor
  · rintro ⟨y, hne, hy⟩
    refine ⟨⟨y, hy⟩, Option.not_isSome_iff_eq_none.mp fun hx => hne ?_⟩
    -- the slot `x` belongs to `y`'s blob and would belong to the blob at `x`
    exact h.splits.parts.apart y x x hy ((h.isSome_iff x).mp hx)
  · rintro ⟨⟨y, hy⟩, hx⟩
    refine ⟨y, fun hyx => ?_, hy⟩
    subst hyx
    have := (h.isSome_iff y).mpr hy
    rw [hx] at this
    cases this

/-- At an id that continues no blob, an allocated id starts a blob: what reads, updates and
deletes of a run of events may name. -/
theorem Stores.not_continues_iff (h : f.Stores d M) (x : Nat) :
    ¬ f.Continues x ↔ (f.core.allocator.pool.Allocated x → (M x).isSome) := by
  rw [h.continues_iff, not_and, ← Option.ne_none_iff_isSome]

/-- The file contains an id as a blob starts there exactly when the id continues no blob. -/
theorem Stores.contains_eq_isSome_iff (h : f.Stores d M) (x : Nat) :
    f.contains x = (M x).isSome ↔ ¬ f.Continues x := by
  rw [h.continues_iff]
  by_cases ha : f.core.allocator.pool.Allocated x
  · have hc : f.contains x = true := (contains_iff f x).mpr ha
    cases hx : M x <;> simp [hc, ha]
  · have hc : f.contains x = false := Bool.eq_false_iff.mpr fun hc => ha ((contains_iff f x).mp hc)
    simp [hc, ha, (h.getElem?_of_not_allocated ha).2]

/-! ## Reading and deleting from a slot a blob continues in -/

/-- Reading a blob that is not cached reads the chain the store links from its id, or fails. -/
theorem take_uncached {x : Nat} (hc : f.records[x]? = none) :
    BlobFile.take x (d, f) = match loadFrom d f.core x (f.core.latest + 1) x [] with
      | .ok c => .ok c (d, f)
      | .error e => .error e (d, f) := by
  cases hl : loadFrom d f.core x (f.core.latest + 1) x [] <;>
    simp [BlobFile.take, BlobFile.load, bind, EStateM.bind, FileOp.self, FileOp.disk, hc, hl, pure,
      EStateM.pure, FileOp.fail]

/-- Releasing the slots of any chain succeeds, changing the allocator only. -/
theorem releaseChain_ok : ∀ (c : Chain) (f : BlobFile), ∃ a, releaseChain c (d, f) = .ok () (d, f.withAllocator a)
  | [], f => ⟨f.core.allocator, rfl⟩
  | y :: c, f => by
    obtain ⟨a, hrun⟩ := releaseChain_ok c (f.withAllocator (f.core.allocator.release d f.core.sid y.id))
    refine ⟨a, ?_⟩
    show (onCore (BlockFile.release y.id) >>= fun _ => releaseChain c) (d, f) = _
    rw [FileOp.bind_ok (release_eq y.id)]
    exact hrun

/-- Reading an allocated id that starts no cached blob answers some bytes or fails: never no blob. -/
theorem get_ne_none (hopen : f.core.disposed = false) {x : Nat} (ha : f.core.allocator.pool.Allocated x)
    (hc : f.records[x]? = none) (st : Disk × BlobFile) : BlobFile.get x (d, f) ≠ .ok none st := by
  unfold BlobFile.get
  rw [FileOp.bind_ok (ensureOpen_eq hopen)]
  simp only [bind, EStateM.bind, FileOp.self, isAllocated_eq, ha, decide_true, Bool.not_true,
    Bool.false_eq_true, if_false, take_uncached hc]
  cases loadFrom d f.core x (f.core.latest + 1) x [] <;> simp [putBack_eq, pure, EStateM.pure]

/-- Deleting an allocated id that starts no cached blob releases the chain the store links from
it and answers `true`, or fails: never `false`. -/
theorem delete_ne_false (hopen : f.core.disposed = false) {x : Nat} (ha : f.core.allocator.pool.Allocated x)
    (hc : f.records[x]? = none) (st : Disk × BlobFile) : BlobFile.delete x (d, f) ≠ .ok false st := by
  unfold BlobFile.delete
  rw [FileOp.bind_ok (ensureOpen_eq hopen)]
  simp only [bind, EStateM.bind, FileOp.self, isAllocated_eq, ha, decide_true, Bool.not_true,
    Bool.false_eq_true, if_false, take_uncached hc]
  cases loadFrom d f.core x (f.core.latest + 1) x [] with
  | error e => simp
  | ok c =>
    obtain ⟨a, hrel⟩ := releaseChain_ok (d := d) c f
    simp [hrel, pure, EStateM.pure]

/-! ## The contract, id by id -/

/-- Reading answers the blob at the id exactly when the id continues no blob. -/
theorem Stores.get_iff (h : f.Stores d M) (x : Nat) :
    (∃ st, BlobFile.get x (d, f) = .ok (M x) st) ↔ ¬ f.Continues x := by
  constructor
  · rintro ⟨st, hst⟩ hx
    obtain ⟨ha, hM⟩ := (h.continues_iff x).mp hx
    rw [hM] at hst
    exact get_ne_none h.opened ha (h.getElem?_eq_none hM) st hst
  · intro hx
    obtain ⟨f', hrun, -, -⟩ := h.get ((h.not_continues_iff x).mp hx)
    exact ⟨_, hrun⟩

/-- Deleting answers whether a blob starts at the id, and takes out that blob alone, exactly when
the id continues no blob. -/
theorem Stores.delete_iff (h : f.Stores d M) (x : Nat) :
    (∃ f', BlobFile.delete x (d, f) = .ok (M x).isSome (d, f') ∧ f'.Stores d (Function.update M x none)) ↔
      ¬ f.Continues x := by
  constructor
  · rintro ⟨f', hrun, -⟩ hx
    obtain ⟨ha, hM⟩ := (h.continues_iff x).mp hx
    rw [hM] at hrun
    exact delete_ne_false h.opened ha (h.getElem?_eq_none hM) _ hrun
  · intro hx
    obtain ⟨f', hrun, -, hs⟩ := h.delete ((h.not_continues_iff x).mp hx)
    exact ⟨f', hrun, hs⟩

end BlobFile

namespace BlobEvent

variable {d : Disk} {f : BlobFile} {M : Nat → Option (List UInt8)}

/-- An allowed run leaves the store as it was: every blob stays in the cache. -/
theorem runFile_disk : ∀ (es : List BlobEvent) {f : BlobFile} {M : Nat → Option (List UInt8)},
    f.Stores d M → AllowedRun (d, f) M es → (runFile es (d, f)).2.1 = d
  | [], _, _, _, _ => rfl
  | e :: es, f, M, h, ⟨he, hes⟩ => by
    obtain ⟨-, hst, -, hs⟩ := step_stores h he
    rw [hst] at hes
    simp only [runFile]
    rw [hst]
    exact runFile_disk es hs hes

/-- In every file a run of allowed events reaches from a new file on an empty store, the file
contains an id exactly when the id is a slot of a blob, the first or another. It keeps the
contract of a map of blobs at an id (contains it just when a blob starts there, reads that blob
or none, and deletes that blob alone, answering whether it was there) exactly when no other blob
continues in that slot; and at such an id an update puts the new blob at the id and touches no
other blob, or refuses the id when it is 0. -/
theorem runFile_contract_iff_not_continues {store : StoreRef} {label : String} {capacity : Nat}
    (hcap : chunkHeader < capacity) (hcap' : capacity < Nat.pow 256 4) (hs : store.store < d.stores.size)
    (hempty : d.size store.store = 0) (hopen : BlobFile.open d store label capacity = .ok f)
    (es : List BlobEvent) (hes : AllowedRun (d, f) (fun _ => none) es) (x : Nat) :
    ((runFile es (d, f)).2.2.contains x = true ↔ ∃ y, x ∈ (runFile es (d, f)).2.2.slots y) ∧
      ((runFile es (d, f)).2.2.contains x = (runMap es (runFile es (d, f)).1 (fun _ => none) x).isSome ↔
        ¬ (runFile es (d, f)).2.2.Continues x) ∧
      ((∃ st, BlobFile.get x (runFile es (d, f)).2 = .ok (runMap es (runFile es (d, f)).1 (fun _ => none) x) st) ↔
        ¬ (runFile es (d, f)).2.2.Continues x) ∧
      ((∃ f', BlobFile.delete x (runFile es (d, f)).2 =
          .ok (runMap es (runFile es (d, f)).1 (fun _ => none) x).isSome (d, f') ∧
          f'.Stores d (Function.update (runMap es (runFile es (d, f)).1 fun _ => none) x none)) ↔
        ¬ (runFile es (d, f)).2.2.Continues x) ∧
      (¬ (runFile es (d, f)).2.2.Continues x → ∀ data : List UInt8,
        (runFile es (d, f)).2.2.Room (some x) data.length →
        (∃ f', BlobFile.update x data (runFile es (d, f)).2 = .ok () (d, f') ∧
            f'.Stores d (Function.update (runMap es (runFile es (d, f)).1 fun _ => none) x (some data))) ∨
          (runMap es (runFile es (d, f)).1 (fun _ => none) x = none ∧
            BlobFile.update x data (runFile es (d, f)).2 = .error (.idInUse x) (runFile es (d, f)).2)) := by
  obtain ⟨h, -⟩ := BlobFile.stores_open hcap hcap' hs hempty hopen
  obtain ⟨-, -, hstores⟩ := runFile_stores es h hes
  have hst : (runFile es (d, f)).2 = (d, (runFile es (d, f)).2.2) := Prod.ext (runFile_disk es h hes) rfl
  rw [hst]
  refine ⟨?_, hstores.contains_eq_isSome_iff x, hstores.get_iff x, hstores.delete_iff x, fun hx data hroom => ?_⟩
  · rw [BlobFile.contains_iff, hstores.allocated_iff]
  · rcases hstores.update ((hstores.not_continues_iff x).mp hx) hroom with ⟨f', hrun, -, hs'⟩ | ⟨hM, hrun⟩
    · exact .inl ⟨f', hrun, hs'⟩
    · exact .inr ⟨hM, hrun⟩

/-- A new file with slots of one payload byte, after a blob of two bytes is added: the blob takes
slots 1 and 2, and the file contains 2, though no blob starts there. -/
theorem runFile_contains_continuation_slot :
    (runFile [.add [1, 2] none] ({ stores := #[ByteArray.empty] },
        ⟨⟨"blobs", ⟨0, none⟩, ⟨blobHeader, 13⟩, Cell.create 8 4 13, Allocator.create ⟨blobHeader, 13⟩, true,
          false⟩, ∅⟩)).2.2.contains 2 = true ∧
      runMap [.add [1, 2] none] (runFile [.add [1, 2] none] ({ stores := #[ByteArray.empty] },
        ⟨⟨"blobs", ⟨0, none⟩, ⟨blobHeader, 13⟩, Cell.create 8 4 13, Allocator.create ⟨blobHeader, 13⟩, true,
          false⟩, ∅⟩)).1 (fun _ => none) 2 = none ∧
      (runFile [.add [1, 2] none] ({ stores := #[ByteArray.empty] },
        ⟨⟨"blobs", ⟨0, none⟩, ⟨blobHeader, 13⟩, Cell.create 8 4 13, Allocator.create ⟨blobHeader, 13⟩, true,
          false⟩, ∅⟩)).2.2.slots 1 = [1, 2] := by
  decide +kernel

/-- The same file: at the slot 2 of the blob at 1, whether the file contains the id and whether a
blob starts there agree exactly when no other blob continues there. -/
theorem runFile_contract_iff_not_continues_two_slots :
    BlobFile.open { stores := #[ByteArray.empty] } ⟨0, none⟩ "blobs" 13 =
        .ok ⟨⟨"blobs", ⟨0, none⟩, ⟨blobHeader, 13⟩, Cell.create 8 4 13, Allocator.create ⟨blobHeader, 13⟩, true,
          false⟩, ∅⟩ ∧
      AllowedRun ({ stores := #[ByteArray.empty] }, ⟨⟨"blobs", ⟨0, none⟩, ⟨blobHeader, 13⟩, Cell.create 8 4 13,
        Allocator.create ⟨blobHeader, 13⟩, true, false⟩, ∅⟩) (fun _ => none) [.add [1, 2] none] ∧
      ((runFile [.add [1, 2] none] ({ stores := #[ByteArray.empty] },
          ⟨⟨"blobs", ⟨0, none⟩, ⟨blobHeader, 13⟩, Cell.create 8 4 13, Allocator.create ⟨blobHeader, 13⟩, true,
            false⟩, ∅⟩)).2.2.contains 2 =
        (runMap [.add [1, 2] none] (runFile [.add [1, 2] none] ({ stores := #[ByteArray.empty] },
          ⟨⟨"blobs", ⟨0, none⟩, ⟨blobHeader, 13⟩, Cell.create 8 4 13, Allocator.create ⟨blobHeader, 13⟩, true,
            false⟩, ∅⟩)).1 (fun _ => none) 2).isSome ↔
        ¬ (runFile [.add [1, 2] none] ({ stores := #[ByteArray.empty] },
          ⟨⟨"blobs", ⟨0, none⟩, ⟨blobHeader, 13⟩, Cell.create 8 4 13, Allocator.create ⟨blobHeader, 13⟩, true,
            false⟩, ∅⟩)).2.2.Continues 2) :=
  ⟨rfl, by decide +kernel, (@runFile_contract_iff_not_continues { stores := #[ByteArray.empty] }
    ⟨⟨"blobs", ⟨0, none⟩, ⟨blobHeader, 13⟩, Cell.create 8 4 13, Allocator.create ⟨blobHeader, 13⟩, true, false⟩, ∅⟩
    ⟨0, none⟩ "blobs" 13 (by decide) (by decide) (by decide) (by decide) rfl [.add [1, 2] none]
    (by decide +kernel) 2).2.1⟩

end BlobEvent

end ColumnDb.Blob
