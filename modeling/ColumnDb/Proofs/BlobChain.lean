import Mathlib
import ColumnDb.Proofs.BlockFile
import ColumnDb.Blob.File

/-!
# Blobs held in chains of slots

A blob file keeps each blob in a chain of slots whose first slot's id is the
blob's id. Between two flushes every blob the file holds sits in its cache;
this module follows the file through the writes a program makes there:
adding, reading, rewriting and deleting blobs.

`IdPool.Parts p S` says that the slot lists `S x` of the blobs `x` split the
allocated ids of the pool `p`: every allocated id belongs to exactly one
blob, once. With the free ids they then count `latest` (`Parts.latest_eq`).
Rewriting a blob releases the slots past those it still needs, from the end,
and takes new ones from the allocator; both keep the split (`Parts.erase`,
`Parts.append`).

`BlobFile.Stores d f M` is the invariant: the file holds the blobs of the map
`M`, each in a chain of `max 1 ⌈L / p⌉` slots for a blob of `L` bytes and
`p` payload bytes per slot, and the chains split the allocated ids. Each
operation keeps it and answers as the map does (`BlobEvent.step_stores`), so
every run of them does (`BlobEvent.runFile_stores`). From a new file, a run
therefore reads back the last blob written at each id, and the blobs share the
slots as `BlobFile.Shares` says (`BlobEvent.runFile_keeps_blobs`).
-/

set_option autoImplicit false

namespace ColumnDb.Slot

open ColumnDb.Disk

/-! ## Running steps of a slot file -/

namespace FileOp

variable {σ α β : Type} {x : FileOp σ α} {g : α → FileOp σ β} {st st' : Disk × σ}

theorem bind_ok {a : α} (h : x st = .ok a st') : (x >>= g) st = g a st' := by
  show EStateM.bind x g st = _
  simp only [EStateM.bind, h]

theorem bind_error {e : FileError} (h : x st = .error e st') : (x >>= g) st = .error e st' := by
  show EStateM.bind x g st = _
  simp only [EStateM.bind, h]

end FileOp

/-! ## Which ids a pool operation allocates -/

namespace IdPool

variable {p p' : IdPool}

theorem latest_next_le (p : IdPool) : p.next.2.latest ≤ p.latest + 1 := by
  unfold next
  split <;> simp

/-- Handing out an id allocates exactly that id. -/
theorem allocated_next (h : p.Valid) (z : Nat) : p.next.2.Allocated z ↔ p.Allocated z ∨ z = p.next.1 := by
  rcases List.eq_nil_or_concat' p.free with hf | ⟨ms, x, hf⟩
  · rw [next_of_nil hf]
    simp only [Allocated, hf, List.not_mem_nil, not_false_eq_true, and_true]
    omega
  · rw [next_of_concat hf]
    have hnd : (ms ++ [x]).Nodup := hf ▸ h.nodup
    have hx : 0 < x ∧ x ≤ p.latest := ⟨h.pos x (by simp [hf]), h.le_latest x (by simp [hf])⟩
    have hxms : x ∉ ms := fun hm => (List.nodup_append.mp hnd).2.2 x hm x (List.mem_singleton_self x) rfl
    simp only [Allocated, hf, List.mem_append, List.mem_singleton, not_or]
    constructor
    · rintro ⟨h0, hle, hz⟩
      by_cases hzx : z = x
      · exact .inr hzx
      · exact .inl ⟨h0, hle, hz, hzx⟩
    · rintro (⟨h0, hle, hz, -⟩ | rfl)
      · exact ⟨h0, hle, hz⟩
      · exact ⟨hx.1, hx.2, hxms⟩

/-- A claim that succeeds allocates exactly the claimed id; the ids it skips stay free. -/
theorem allocated_claim (h : p.Valid) {x : Nat} (hc : p.claim x = some p') (z : Nat) :
    p'.Allocated z ↔ p.Allocated z ∨ z = x := by
  unfold claim at hc
  split at hc
  · cases hc
  next h0 =>
  split at hc
  · next hle =>
    split at hc
    · -- a free id leaves the free list
      cases hc
      simp only [Allocated, h.nodup.mem_erase_iff]
      constructor
      · rintro ⟨h0', hle', hz⟩
        by_cases hzx : z = x
        · exact .inr hzx
        · exact .inl ⟨h0', hle', fun hm => hz ⟨hzx, hm⟩⟩
      · rintro (⟨h0', hle', hz⟩ | rfl)
        · exact ⟨h0', hle', fun hm => hz hm.2⟩
        · exact ⟨Nat.pos_of_ne_zero h0, hle, fun hm => hm.1 rfl⟩
    · cases hc
  · next hle =>
    -- an id past `latest`: the ids skipped on the way join the free list
    cases hc
    simp only [Allocated, List.mem_append, List.mem_range'_1, not_or, not_and, not_lt]
    constructor
    · rintro ⟨h0', hle', hz, hgap⟩
      by_cases hzx : z = x
      · exact .inr hzx
      · exact .inl ⟨h0', by omega, hz⟩
    · rintro (⟨h0', hle', hz⟩ | rfl)
      · exact ⟨h0', by omega, hz, by omega⟩
      · exact ⟨Nat.pos_of_ne_zero h0, le_refl _, fun hm => by have := h.le_latest _ hm; omega, by omega⟩

/-- A claim raises `latest` to the claimed id at most. -/
theorem latest_claim_le {x : Nat} (hc : p.claim x = some p') : p'.latest ≤ max p.latest x := by
  unfold claim at hc
  split at hc
  · cases hc
  split at hc
  · split at hc
    · cases hc
      exact le_max_left _ _
    · cases hc
  · cases hc
    exact le_max_right _ _

/-- Releasing an id unallocates exactly that id. -/
theorem allocated_release (y z : Nat) : (p.release y).Allocated z ↔ p.Allocated z ∧ z ≠ y := by
  unfold release
  split
  · simp only [Allocated, List.mem_append, List.mem_singleton, not_or]
    tauto
  · next hy => exact ⟨fun hz => ⟨hz, fun e => hy (e ▸ hz)⟩, fun hz => hz.1⟩

/-- Releases ids one after the other. -/
def releaseAll (p : IdPool) (ids : List Nat) : IdPool := ids.foldl release p

/-- Hands out `k` ids one after the other: the ids, in the order handed out, and the pool after. -/
def nextN : Nat → IdPool → List Nat × IdPool
  | 0, p => ([], p)
  | k + 1, p => (p.next.1 :: (nextN k p.next.2).1, (nextN k p.next.2).2)

@[simp] theorem releaseAll_nil (p : IdPool) : p.releaseAll [] = p := rfl

@[simp] theorem releaseAll_cons (p : IdPool) (x : Nat) (ids : List Nat) :
    p.releaseAll (x :: ids) = (p.release x).releaseAll ids := rfl

/-! ## Splitting the allocated ids among owners -/

/-- The lists `S x` split the allocated ids of the pool among the owners `x`: every allocated id
is held by one owner, exactly once, and no owner holds another id. -/
structure Parts (p : IdPool) (S : Nat → List Nat) : Prop where
  allocated : ∀ y, p.Allocated y ↔ ∃ x, y ∈ S x
  apart : ∀ x x' y, y ∈ S x → y ∈ S x' → x = x'
  nodup : ∀ x, (S x).Nodup

variable {S : Nat → List Nat}

/-- Releasing one id of an owner takes it out of that owner's list. -/
theorem Parts.erase (h : p.Parts S) {x y : Nat} {L₁ L₂ : List Nat} (hS : S x = L₁ ++ y :: L₂) :
    (p.release y).Parts (Function.update S x (L₁ ++ L₂)) := by
  have hnd : (y :: (L₁ ++ L₂)).Nodup := List.nodup_middle.mp (hS ▸ h.nodup x)
  have hyL : y ∉ L₁ ++ L₂ := (List.nodup_cons.mp hnd).1
  -- every id the owners hold now, they held before
  have hsub : ∀ x' z, z ∈ Function.update S x (L₁ ++ L₂) x' → z ∈ S x' := by
    intro x' z hz
    by_cases hx : x' = x
    · subst hx
      rw [Function.update_self] at hz
      rw [hS]
      simp only [List.mem_append, List.mem_cons] at hz ⊢
      tauto
    · rwa [Function.update_of_ne hx] at hz
  refine ⟨fun z => ?_, fun a b z ha hb => h.apart a b z (hsub a z ha) (hsub b z hb), fun x' => ?_⟩
  · rw [allocated_release]
    constructor
    · rintro ⟨hz, hzy⟩
      obtain ⟨x', hx'⟩ := (h.allocated z).mp hz
      refine ⟨x', ?_⟩
      by_cases hx : x' = x
      · subst hx
        rw [hS] at hx'
        rw [Function.update_self]
        simp only [List.mem_append, List.mem_cons] at hx' ⊢
        tauto
      · rwa [Function.update_of_ne hx]
    · rintro ⟨x', hx'⟩
      refine ⟨(h.allocated z).mpr ⟨x', hsub x' z hx'⟩, fun hzy => ?_⟩
      subst hzy
      by_cases hx : x' = x
      · subst hx
        rw [Function.update_self] at hx'
        exact hyL hx'
      · exact hx (h.apart x' x z (hsub x' z hx') (by simp [hS]))
  · by_cases hx : x' = x
    · subst hx
      rw [Function.update_self]
      exact (List.nodup_cons.mp hnd).2
    · rw [Function.update_of_ne hx]
      exact h.nodup x'

/-- Allocating one new id and giving it to an owner appends it to that owner's list. -/
theorem Parts.append (h : p.Parts S) {y : Nat} (hy : ¬ p.Allocated y)
    (hp' : ∀ z, p'.Allocated z ↔ p.Allocated z ∨ z = y) (x : Nat) :
    p'.Parts (Function.update S x (S x ++ [y])) := by
  have hyS : ∀ x', y ∉ S x' := fun x' hm => hy ((h.allocated y).mpr ⟨x', hm⟩)
  have hmem : ∀ x' z, z ∈ Function.update S x (S x ++ [y]) x' ↔ z ∈ S x' ∨ (x' = x ∧ z = y) := by
    intro x' z
    by_cases hx : x' = x
    · subst hx
      simp
    · simp [hx]
  refine ⟨fun z => ?_, fun a b z ha hb => ?_, fun x' => ?_⟩
  · rw [hp', h.allocated]
    simp only [hmem]
    constructor
    · rintro (⟨x', hx'⟩ | rfl)
      · exact ⟨x', .inl hx'⟩
      · exact ⟨x, .inr ⟨rfl, rfl⟩⟩
    · rintro ⟨x', hx' | ⟨-, rfl⟩⟩
      · exact .inl ⟨x', hx'⟩
      · exact .inr rfl
  · rw [hmem] at ha hb
    rcases ha with ha | ⟨ha, hzy⟩
    · rcases hb with hb | ⟨-, hzy⟩
      · exact h.apart a b z ha hb
      · exact absurd (hzy ▸ ha) (hyS a)
    · rcases hb with hb | ⟨hb, -⟩
      · exact absurd (hzy ▸ hb) (hyS b)
      · rw [ha, hb]
  · by_cases hx : x' = x
    · subst hx
      rw [Function.update_self]
      refine List.nodup_append.mpr ⟨h.nodup x', List.nodup_singleton y, fun a ha b hb hab => ?_⟩
      rw [List.mem_singleton.mp hb] at hab
      exact hyS x' (hab ▸ ha)
    · rw [Function.update_of_ne hx]
      exact h.nodup x'

/-- When every owner holding an id holds its own id, the owners' lists and the free ids together
count every id up to `latest`. -/
theorem Parts.latest_eq (hv : p.Valid) (h : p.Parts S) (hown : ∀ x, S x ≠ [] → x ∈ S x) :
    p.latest = p.free.length + ((List.range' 1 p.latest).map fun x => (S x).length).sum := by
  -- an owner holding an id is itself allocated, so it lies in `1 ..= latest`
  have hrange : ∀ x z, z ∈ S x → x ∈ List.range' 1 p.latest := by
    intro x z hz
    have hx := (h.allocated x).mpr ⟨x, hown x (List.ne_nil_of_mem hz)⟩
    rw [List.mem_range'_1]
    exact ⟨hx.1, by have := hx.2.1; omega⟩
  have hnd : ((List.range' 1 p.latest).flatMap S).Nodup :=
    List.nodup_flatMap.mpr ⟨fun x _ => h.nodup x,
      (List.nodup_range' 1).imp fun hab z ha hb => hab (h.apart _ _ z ha hb)⟩
  -- the owned ids are the allocated ones, and the others up to `latest` are the free ones
  have howned : ((List.range' 1 p.latest).flatMap S).Perm
      ((List.range' 1 p.latest).filter fun z => !decide (z ∈ p.free)) := by
    refine (List.perm_ext_iff_of_nodup hnd ((List.nodup_range' 1).filter _)).mpr fun z => ?_
    simp only [List.mem_flatMap, List.mem_filter, List.mem_range'_1, Bool.not_eq_true',
      decide_eq_false_iff_not]
    constructor
    · rintro ⟨x, -, hz⟩
      have := (h.allocated z).mpr ⟨x, hz⟩
      exact ⟨⟨this.1, by have := this.2.1; omega⟩, this.2.2⟩
    · rintro ⟨⟨h1, h2⟩, hz⟩
      obtain ⟨x, hx⟩ := (h.allocated z).mp ⟨h1, by omega, hz⟩
      exact ⟨x, List.mem_range'_1.mp (hrange x z hx), hx⟩
  have hfree : ((List.range' 1 p.latest).filter fun z => decide (z ∈ p.free)).Perm p.free := by
    refine (List.perm_ext_iff_of_nodup ((List.nodup_range' 1).filter _) hv.nodup).mpr fun z => ?_
    simp only [List.mem_filter, List.mem_range'_1, decide_eq_true_eq]
    exact ⟨fun hz => hz.2, fun hz => ⟨⟨hv.pos z hz, by have := hv.le_latest z hz; omega⟩, hz⟩⟩
  calc p.latest = (List.range' 1 p.latest).length := (List.length_range').symm
    _ = ((List.range' 1 p.latest).filter fun z => decide (z ∈ p.free)).length +
          ((List.range' 1 p.latest).filter fun z => !decide (z ∈ p.free)).length :=
        List.length_eq_length_filter_add _
    _ = p.free.length + ((List.range' 1 p.latest).flatMap S).length := by
        rw [hfree.length_eq, howned.length_eq]
    _ = p.free.length + ((List.range' 1 p.latest).map fun x => (S x).length).sum := by
        rw [List.length_flatMap]

end IdPool

/-! ## Chunk slots -/

namespace ChunkSlot

/-- A chunk slot laid out for payloads of `p` bytes: an eight-byte link, a four-byte length, and
a payload of `p` bytes. -/
structure Sized (p : Nat) (b : ChunkSlot) : Prop where
  next_width : b.next.width = 8
  len_width : b.len.width = 4
  capacity_eq : b.payload.capacity = p
  fits : b.payload.Fits

/-- A new empty slot. -/
theorem create_nil (l : Layout) (id : Nat) :
    ∃ b, ChunkSlot.create l id [] = .ok b ∧ b.id = id ∧ b.Sized (payloadCapacity l) ∧ b.data = [] := by
  refine ⟨⟨id, Cell.create (l.offset id) 8 0, Cell.create (l.offset id + 8) 4 0,
    Window.create (l.offset id + chunkHeader) (payloadCapacity l)⟩, ?_, rfl,
    ⟨rfl, rfl, rfl, Window.fits_create _ _⟩, by simp [data, Cell.create]⟩
  simp [create, setData, Window.update, Window.create, Cell.set, Cell.create, bind, Except.bind, pure,
    Except.pure]

variable {p : Nat} {b : ChunkSlot}

/-- Setting a payload that fits gives a slot holding exactly it. -/
theorem Sized.setData (h : b.Sized p) (hp : p < Nat.pow 256 4) {bs : List UInt8} (hbs : bs.length ≤ p) :
    ∃ b', b.setData bs = .ok b' ∧ b'.id = b.id ∧ b'.Sized p ∧ b'.data = bs := by
  obtain ⟨w, hw⟩ : ∃ w, b.payload.update bs = .ok w := by
    unfold Window.update
    rw [if_neg (by rw [h.capacity_eq]; omega)]
    split
    · exact ⟨_, rfl⟩
    · exact ⟨_, rfl⟩
  obtain ⟨-, hcap, hfits, -, htake⟩ := Window.update_ok hw
  have hlen : (b.len.set bs.length).value = bs.length :=
    Cell.value_set _ (by rw [h.len_width]; omega)
  refine ⟨{ b with payload := w, len := b.len.set bs.length }, ?_, rfl,
    ⟨h.next_width, by rw [Cell.width_set, h.len_width], by rw [hcap, h.capacity_eq], hfits h.fits⟩, ?_⟩
  · simp [ChunkSlot.setData, hw, bind, Except.bind, pure, Except.pure]
  · simp only [data, hlen, hcap, h.capacity_eq, Nat.min_eq_left hbs]
    exact htake h.fits

theorem Sized.setNext (h : b.Sized p) (x : Nat) : (b.setNext x).Sized p :=
  ⟨by rw [ChunkSlot.setNext, Cell.width_set, h.next_width], h.len_width, h.capacity_eq, h.fits⟩

@[simp] theorem data_setNext (b : ChunkSlot) (x : Nat) : (b.setNext x).data = b.data := rfl

@[simp] theorem id_setNext (b : ChunkSlot) (x : Nat) : (b.setNext x).id = b.id := rfl

end ChunkSlot

end ColumnDb.Slot

namespace ColumnDb.Blob

open ColumnDb.Slot ColumnDb.Disk

/-! ## Cutting a blob into pieces -/

/-- The pieces put back together give the blob. -/
theorem flatten_pieces (n : Nat) (bs : List UInt8) : (pieces n bs).flatten = bs := by
  fun_induction pieces n bs with
  | case1 => simp
  | case2 bs h ih => simp [ih]

theorem length_le_of_mem_pieces {n : Nat} {bs piece : List UInt8} (h : piece ∈ pieces n bs) :
    piece.length ≤ n + 1 := by
  fun_induction pieces n bs with
  | case1 => simp at h
  | case2 bs hb ih =>
    rcases List.mem_cons.mp h with rfl | h
    · simp
    · exact ih h

/-- A blob of `L` bytes is cut into `⌈L / (n + 1)⌉` pieces. -/
theorem length_pieces (n : Nat) (bs : List UInt8) : (pieces n bs).length = (bs.length + n) / (n + 1) := by
  fun_induction pieces n bs with
  | case1 => simp [Nat.div_eq_of_lt (Nat.lt_succ_self n)]
  | case2 bs hb ih =>
    rw [List.length_cons, ih, List.length_drop]
    have hpos : 0 < bs.length := List.length_pos_iff.mpr hb
    by_cases hle : n + 1 ≤ bs.length
    · rw [show bs.length + n = bs.length - (n + 1) + n + (n + 1) by omega,
        Nat.add_div_right _ (Nat.succ_pos n)]
    · -- a short blob is one piece
      rw [show bs.length - (n + 1) = 0 by omega, Nat.zero_add, Nat.div_eq_of_lt (Nat.lt_succ_self n)]
      exact (Nat.div_eq_of_lt_le (by omega) (by omega)).symm

/-- The number of slots a blob of `len` bytes takes with `p` payload bytes per slot: `len / p`
rounded up, and one slot for the empty blob. -/
def slotCount (p len : Nat) : Nat := max 1 ((len + p - 1) / p)

theorem max_length_pieces {p : Nat} (hp : 0 < p) (bs : List UInt8) :
    max (pieces (p - 1) bs).length 1 = slotCount p bs.length := by
  rw [length_pieces, slotCount, Nat.sub_add_cancel hp, max_comm, Nat.add_sub_assoc hp]

/-- The slots a blob owns once its slots `L` are written over with `len` bytes, `p` to a slot, and
the pool after: the first `slotCount p len` slots are kept, the others are released from the
end, and the missing ones are taken from the pool. -/
def rechain (p : Nat) (pool : IdPool) (L : List Nat) (len : Nat) : List Nat × IdPool :=
  let n := slotCount p len
  let grown := (pool.releaseAll (L.drop n).reverse).nextN (n - (L.take n).length)
  (L.take n ++ grown.1, grown.2)

@[simp] theorem Chain.data_nil : Chain.data [] = [] := rfl

@[simp] theorem Chain.data_cons (b : ChunkSlot) (c : Chain) : Chain.data (b :: c) = b.data ++ Chain.data c := by
  simp [Chain.data]

@[simp] theorem Chain.data_append (c c' : Chain) : Chain.data (c ++ c') = c.data ++ c'.data := by
  simp [Chain.data]

namespace BlobFile

/-- The slot ids of the blob that starts at `x`, as the file holds it; none for any other id. -/
def slots (f : BlobFile) (x : Nat) : List Nat := ((f.records[x]?).map fun c => c.map ChunkSlot.id).getD []

/-- The file with another allocator. -/
def withAllocator (f : BlobFile) (a : Allocator) : BlobFile := { f with core := { f.core with allocator := a } }

@[simp] theorem withAllocator_withAllocator (f : BlobFile) (a b : Allocator) :
    (f.withAllocator a).withAllocator b = f.withAllocator b := rfl

@[simp] theorem withAllocator_self (f : BlobFile) : f.withAllocator f.core.allocator = f := rfl

@[simp] theorem layout_withAllocator (f : BlobFile) (a : Allocator) :
    (f.withAllocator a).core.layout = f.core.layout := rfl

theorem slots_insert (f : BlobFile) (core : BlockFile) (x : Nat) (c : Chain) :
    slots ⟨core, f.records.insert x c⟩ = Function.update f.slots x (c.map ChunkSlot.id) := by
  funext y
  by_cases h : x = y
  · subst h
    simp [slots]
  · rw [Function.update_of_ne (Ne.symm h)]
    simp [slots, FreeChain.getElem?_insert_nat, h]

theorem slots_erase (f : BlobFile) (core : BlockFile) (x : Nat) :
    slots ⟨core, f.records.erase x⟩ = Function.update f.slots x [] := by
  funext y
  by_cases h : x = y
  · subst h
    simp [slots]
  · rw [Function.update_of_ne (Ne.symm h)]
    simp [slots, FreeChain.getElem?_erase_nat, h]

theorem slots_of_getElem? {f : BlobFile} {x : Nat} {c : Chain} (h : f.records[x]? = some c) :
    f.slots x = c.map ChunkSlot.id := by
  simp [slots, h]

/-! ## Each step on the allocator -/

variable {d : Disk} {f : BlobFile} {S : Nat → List Nat}

theorem ensureOpen_eq (h : f.core.disposed = false) : onCore BlockFile.ensureOpen (d, f) = .ok () (d, f) := by
  simp [onCore, FileOp.zoom, BlockFile.ensureOpen, bind, EStateM.bind, FileOp.self, h, pure, EStateM.pure]

theorem release_eq (x : Nat) :
    onCore (BlockFile.release x) (d, f) = .ok () (d, f.withAllocator (f.core.allocator.release d f.core.sid x)) :=
  rfl

theorem nextFreeId_eq : onCore BlockFile.nextFreeId (d, f) =
    .ok (f.core.allocator.nextFreeId d f.core.sid).1 (d, f.withAllocator (f.core.allocator.nextFreeId d f.core.sid).2) :=
  rfl

/-- Claiming an id takes it, or fails with `idInUse` and changes nothing. -/
theorem claim_eq (x : Nat) : onCore (BlockFile.claim (some x)) (d, f) =
    match f.core.allocator.tryUse d f.core.sid x with
    | some a => .ok x (d, f.withAllocator a)
    | none => .error (.idInUse x) (d, f) := by
  cases ht : f.core.allocator.tryUse d f.core.sid x with
  | none => simp only [onCore, FileOp.zoom, BlockFile.claim_some_eq, ht]
  | some a =>
    simp only [onCore, FileOp.zoom, BlockFile.claim_some_eq, ht]
    rfl

theorem Allocator.latest_release (a : Allocator) (d : Disk) (s x : Nat) : (a.release d s x).latest = a.latest := by
  unfold Allocator.release
  split <;> rfl

/-- The file part of a blob file is true to its store, and its pool splits among the slot lists
`S`. -/
structure Splits (d : Disk) (f : BlobFile) (S : Nat → List Nat) : Prop where
  core : f.core.Holds d
  parts : f.core.allocator.pool.Parts S

/-- Releasing a slot of a blob takes it out of the blob's slots. -/
theorem Splits.release (h : Splits d f S) {x y : Nat} {L₁ L₂ : List Nat} (hS : S x = L₁ ++ y :: L₂) :
    Splits d (f.withAllocator (f.core.allocator.release d f.core.sid y)) (Function.update S x (L₁ ++ L₂)) := by
  obtain ⟨hpool, hholds⟩ := h.core.allocator.release y
  refine ⟨h.core.withAllocator hholds, ?_⟩
  show (f.core.allocator.release d f.core.sid y).pool.Parts _
  rw [hpool]
  exact h.parts.erase hS

/-- Handing out an id appends it to a blob's slots. -/
theorem Splits.next (h : Splits d f S) (hroom : f.core.latest + 1 < Nat.pow 256 8) (x : Nat) :
    Splits d (f.withAllocator (f.core.allocator.nextFreeId d f.core.sid).2)
        (Function.update S x (S x ++ [(f.core.allocator.nextFreeId d f.core.sid).1])) ∧
      (f.core.allocator.nextFreeId d f.core.sid).2.latest.value ≤ f.core.latest + 1 := by
  obtain ⟨hpair, hholds⟩ := h.core.allocator.nextFreeId fun _ => hroom
  have hv := h.core.allocator.valid
  have h₁ : (f.core.allocator.nextFreeId d f.core.sid).1 = f.core.allocator.pool.next.1 := congrArg Prod.fst hpair
  have h₂ : (f.core.allocator.nextFreeId d f.core.sid).2.pool = f.core.allocator.pool.next.2 :=
    congrArg Prod.snd hpair
  refine ⟨⟨h.core.withAllocator hholds, ?_⟩, ?_⟩
  · show (f.core.allocator.nextFreeId d f.core.sid).2.pool.Parts _
    rw [h₂, h₁]
    exact h.parts.append hv.next.2.2.1 (IdPool.allocated_next hv) x
  · have := IdPool.latest_next_le f.core.allocator.pool
    rw [← h₂] at this
    exact this

/-- Claiming an id no blob holds starts a blob with that one slot. -/
theorem Splits.claim (h : Splits d f S) {x : Nat} (hx : x < Nat.pow 256 8) {a : Allocator}
    (ha : f.core.allocator.tryUse d f.core.sid x = some a) (hS : S x = []) :
    Splits d (f.withAllocator a) (Function.update S x [x]) ∧ a.latest.value ≤ max f.core.latest x := by
  obtain ⟨hmap, hkeep⟩ := h.core.allocator.tryUse hx
  have hc : f.core.allocator.pool.claim x = some a.pool := by rw [← hmap, ha, Option.map_some]
  have hnot : ¬ f.core.allocator.pool.Allocated x := fun hal => by
    have := (IdPool.claim_eq_none x).mpr (.inr hal)
    rw [hc] at this
    cases this
  refine ⟨⟨h.core.withAllocator (hkeep a ha), ?_⟩, ?_⟩
  · have := h.parts.append hnot (IdPool.allocated_claim h.core.allocator.valid hc) x
    rwa [hS, List.nil_append] at this
  · exact IdPool.latest_claim_le hc

/-! ## Rewriting a chain -/

/-- Releasing slots one after the other, the last slot of the blob first. -/
theorem forIn_release (x : Nat) : ∀ (R : List ChunkSlot) {f : BlobFile} {S : Nat → List Nat} {T : List Nat},
    Splits d f S → S x = T ++ (R.map ChunkSlot.id).reverse →
    ∃ a, (forIn R PUnit.unit (fun (slot : ChunkSlot) _ => do
        onCore (BlockFile.release slot.id)
        pure (ForInStep.yield PUnit.unit)) : BlobOp PUnit) (d, f) = .ok PUnit.unit (d, f.withAllocator a) ∧
      a.latest = f.core.allocator.latest ∧ a.pool = f.core.allocator.pool.releaseAll (R.map ChunkSlot.id) ∧
      Splits d (f.withAllocator a) (Function.update S x T)
  | [], f, S, T, h, hS => by
    refine ⟨f.core.allocator, rfl, rfl, rfl, ?_⟩
    rw [List.map_nil, List.reverse_nil, List.append_nil] at hS
    rw [← hS, Function.update_eq_self]
    exact h
  | y :: R, f, S, T, h, hS => by
    have hS' : S x = (T ++ (R.map ChunkSlot.id).reverse) ++ y.id :: [] := by simp [hS]
    obtain ⟨a, hrun, hlatest, hpool, hsplit⟩ :=
      forIn_release x R (h.release hS') (by rw [Function.update_self, List.append_nil])
    refine ⟨a, ?_, hlatest.trans (Allocator.latest_release _ _ _ _), ?_, by rwa [Function.update_idem] at hsplit⟩
    · rw [List.forIn_cons]
      simp only [bind, EStateM.bind, release_eq, pure, EStateM.pure]
      exact hrun
    · -- the first slot released is the first id of the pool's releases
      rw [hpool, List.map_cons, IdPool.releaseAll_cons, ← (h.core.allocator.release y.id).1]
      rfl

theorem shrink_eq (h : Splits d f S) {x : Nat} {c : Chain} (hS : S x = c.map ChunkSlot.id) (n : Nat) :
    ∃ a, shrink n c (d, f) = .ok (c.take n) (d, f.withAllocator a) ∧ a.latest = f.core.allocator.latest ∧
      a.pool = f.core.allocator.pool.releaseAll ((c.drop n).reverse.map ChunkSlot.id) ∧
      Splits d (f.withAllocator a) (Function.update S x ((c.take n).map ChunkSlot.id)) := by
  have hS' : S x = (c.take n).map ChunkSlot.id ++ (((c.drop n).reverse).map ChunkSlot.id).reverse := by
    rw [hS, List.map_reverse, List.reverse_reverse, ← List.map_append, List.take_append_drop]
  obtain ⟨a, hrun, hlatest, hpool, hsplit⟩ := forIn_release x (c.drop n).reverse h hS'
  refine ⟨a, ?_, hlatest, hpool, hsplit⟩
  unfold shrink
  rw [FileOp.bind_ok hrun]
  rfl

/-- Releasing a whole chain, first slot first, leaves the blob no slot. -/
theorem releaseChain_eq (x : Nat) : ∀ (c : Chain) {f : BlobFile} {S : Nat → List Nat},
    Splits d f S → S x = c.map ChunkSlot.id →
    ∃ a, releaseChain c (d, f) = .ok () (d, f.withAllocator a) ∧
      a.pool = f.core.allocator.pool.releaseAll (c.map ChunkSlot.id) ∧
      Splits d (f.withAllocator a) (Function.update S x [])
  | [], f, S, h, hS => by
    refine ⟨f.core.allocator, rfl, rfl, ?_⟩
    rw [List.map_nil] at hS
    rw [← hS, Function.update_eq_self]
    exact h
  | y :: c, f, S, h, hS => by
    obtain ⟨a, hrun, hpool, hsplit⟩ :=
      releaseChain_eq x c (h.release (show S x = [] ++ y.id :: c.map ChunkSlot.id by simpa using hS))
        (Function.update_self ..)
    refine ⟨a, ?_, ?_, by rwa [Function.update_idem] at hsplit⟩
    · show (onCore (BlockFile.release y.id) >>= fun _ => releaseChain c) (d, f) = _
      rw [FileOp.bind_ok (release_eq y.id)]
      exact hrun
    · rw [hpool, List.map_cons, IdPool.releaseAll_cons, ← (h.core.allocator.release y.id).1]
      rfl

/-- Taking `k` new slots from the allocator, each appended to the blob's slots. -/
theorem grow_eq (x : Nat) : ∀ (k : Nat) {f : BlobFile} {S : Nat → List Nat} (c : Chain),
    Splits d f S → S x = c.map ChunkSlot.id → (0 < k → f.core.latest + k < Nat.pow 256 8) →
    ∃ a news, grow k c (d, f) = .ok (c ++ news) (d, f.withAllocator a) ∧
      Splits d (f.withAllocator a) (Function.update S x ((c ++ news).map ChunkSlot.id)) ∧ news.length = k ∧
      news.map ChunkSlot.id = (f.core.allocator.pool.nextN k).1 ∧ a.pool = (f.core.allocator.pool.nextN k).2 ∧
      ∀ b ∈ news, b.Sized (ChunkSlot.payloadCapacity f.core.layout) ∧ b.data = [] ∧
        ChunkSlot.create f.core.layout b.id [] = .ok b
  | 0, f, S, c, h, hS, _ => by
    refine ⟨f.core.allocator, [], by rw [List.append_nil]; rfl, ?_, rfl, rfl, rfl, by simp⟩
    rw [List.append_nil, ← hS, Function.update_eq_self]
    exact h
  | k + 1, f, S, c, h, hS, hroom => by
    have hroom := hroom (Nat.succ_pos k)
    obtain ⟨h₁, hle⟩ := h.next (by omega) x
    obtain ⟨hpair, -⟩ := h.core.allocator.nextFreeId fun _ => by
      show f.core.latest + 1 < _
      omega
    obtain ⟨b, hb, hbid, hsized, hdata⟩ :=
      ChunkSlot.create_nil f.core.layout (f.core.allocator.nextFreeId d f.core.sid).1
    obtain ⟨a, news, hrun, hsplit, hlen, hids, hpool, hnews⟩ := grow_eq x k (c ++ [b]) h₁
      (by rw [Function.update_self, hS, List.map_append, List.map_singleton, hbid])
      (fun _ => by show (f.core.allocator.nextFreeId d f.core.sid).2.latest.value + k < _; omega)
    -- the id taken first is the pool's next one, and the rest come from the pool after it
    have h₂ : (f.core.allocator.nextFreeId d f.core.sid).2.pool = f.core.allocator.pool.next.2 :=
      congrArg Prod.snd hpair
    rw [show (f.withAllocator (f.core.allocator.nextFreeId d f.core.sid).2).core.allocator.pool =
      f.core.allocator.pool.next.2 from h₂] at hids hpool
    refine ⟨a, b :: news, ?_, ?_, by simp [hlen], ?_, hpool, ?_⟩
    · unfold grow
      rw [FileOp.bind_ok nextFreeId_eq]
      simp only [bind, EStateM.bind, FileOp.self, layout_withAllocator, hb]
      simpa using hrun
    · rw [Function.update_idem] at hsplit
      simpa using hsplit
    · rw [List.map_cons, hids, hbid, congrArg Prod.fst hpair]
      rfl
    · intro b' hb'
      rcases List.mem_cons.mp hb' with rfl | hb'
      · exact ⟨hsized, hdata, by rw [hbid]; exact hb⟩
      · exact hnews b' hb'

/-- Filling slots with pieces that fit keeps the slots and holds the pieces. -/
theorem fill_eq {p : Nat} (hp : p < Nat.pow 256 4) : ∀ (c : Chain) (ps : List (List UInt8)),
    (∀ b ∈ c, b.Sized p) → (∀ q ∈ ps, q.length ≤ p) → ps.length ≤ c.length →
    ∃ c', fill c ps (d, f) = .ok c' (d, f) ∧ c'.map ChunkSlot.id = c.map ChunkSlot.id ∧
      (∀ b ∈ c', b.Sized p) ∧ c'.data = ps.flatten ∧
      ((∀ b ∈ c, b.id < Nat.pow 256 8) → c ≠ [] →
        c'.map (fun b => b.next.value) = (c'.map ChunkSlot.id).tail ++ [0]) ∧
      ∀ Q : ChunkSlot → Prop, (∀ b ∈ c, Q b) → (∀ b bs b', Q b → b.setData bs = .ok b' → Q b') →
        (∀ b v, Q b → Q (b.setNext v)) → ∀ b ∈ c', Q b
  | [], ps, _, _, hlen => by
    have : ps = [] := List.eq_nil_of_length_eq_zero (Nat.le_zero.mp hlen)
    subst this
    exact ⟨[], rfl, rfl, by simp, rfl, fun _ hne => absurd rfl hne, fun _ _ _ _ b hb => by cases hb⟩
  | b :: c, ps, hc, hps, hlen => by
    have hhead : (ps.headD []).length ≤ p := by
      cases ps with
      | nil => simp
      | cons q ps => exact hps q (List.mem_cons_self ..)
    obtain ⟨b', hb', hid, hsized, hdata⟩ := (hc b (List.mem_cons_self ..)).setData hp hhead
    obtain ⟨c', hrun, hids, hsized', hdata', hlinks', hQ'⟩ := fill_eq hp c ps.tail
      (fun b hb => hc b (List.mem_cons_of_mem _ hb)) (fun q hq => hps q (List.mem_of_mem_tail hq))
      (by simp only [List.length_tail, List.length_cons] at hlen ⊢; omega)
    refine ⟨b'.setNext ((c.head?.map ChunkSlot.id).getD 0) :: c', ?_, by simp [hid, hids], ?_, ?_, ?_, ?_⟩
    · simp only [fill, hb']
      rw [FileOp.bind_ok hrun]
      cases c <;> rfl
    · intro b'' hb''
      rcases List.mem_cons.mp hb'' with rfl | hb''
      · exact hsized.setNext _
      · exact hsized' b'' hb''
    · rw [Chain.data_cons, ChunkSlot.data_setNext, hdata, hdata']
      cases ps <;> rfl
    · -- each slot links to the next one's id, the last to 0
      intro hlt _
      have hnext : ∀ v, v < Nat.pow 256 8 → (b'.setNext v).next.value = v := fun v hv =>
        Cell.value_set _ (by rw [hsized.next_width]; exact hv)
      cases c with
      | nil =>
        rw [List.map_nil, List.map_eq_nil_iff] at hids
        subst hids
        simp [hnext 0 (Nat.pos_of_neZero _)]
      | cons b₂ c₂ =>
        have hb₂ : b₂.id < Nat.pow 256 8 := hlt b₂ (List.mem_cons_of_mem _ List.mem_cons_self)
        rw [List.map_cons, List.map_cons, List.tail_cons, hids, List.head?_cons, Option.map_some,
          Option.getD_some, hnext _ hb₂,
          hlinks' (fun b hb => hlt b (List.mem_cons_of_mem _ hb)) (List.cons_ne_nil _ _), hids]
        rfl
    · intro Q hQc hset hnextQ b'' hb''
      rcases List.mem_cons.mp hb'' with rfl | hb''
      · exact hnextQ _ _ (hset b _ b' (hQc b List.mem_cons_self) hb')
      · exact hQ' Q (fun b hb => hQc b (List.mem_cons_of_mem _ hb)) hset hnextQ b'' hb''

/-- Writing over a chain leaves a chain of exactly the slots the blob needs, holding it, with the
same first slot; the slots released and taken keep the split. -/
theorem write_eq (h : Splits d f S) {x : Nat} {c : Chain} (hS : S x = c.map ChunkSlot.id) (hc : c ≠ [])
    (hsized : ∀ b ∈ c, b.Sized (ChunkSlot.payloadCapacity f.core.layout))
    (hp : 0 < ChunkSlot.payloadCapacity f.core.layout) (hp' : ChunkSlot.payloadCapacity f.core.layout < Nat.pow 256 4)
    (data : List UInt8)
    (hroom : f.core.latest + slotCount (ChunkSlot.payloadCapacity f.core.layout) data.length ≤ Nat.pow 256 8) :
    ∃ a c', write c data (d, f) = .ok c' (d, f.withAllocator a) ∧
      Splits d (f.withAllocator a) (Function.update S x (c'.map ChunkSlot.id)) ∧
      (∀ b ∈ c', b.Sized (ChunkSlot.payloadCapacity f.core.layout)) ∧ c'.data = data ∧
      c'.length = slotCount (ChunkSlot.payloadCapacity f.core.layout) data.length ∧
      (c'.map ChunkSlot.id).head? = (c.map ChunkSlot.id).head? ∧
      (c'.map ChunkSlot.id, a.pool) =
        rechain (ChunkSlot.payloadCapacity f.core.layout) f.core.allocator.pool (c.map ChunkSlot.id) data.length ∧
      c'.map (fun b => b.next.value) = (c'.map ChunkSlot.id).tail ++ [0] ∧
      ∀ Q : ChunkSlot → Prop, (∀ b ∈ c, Q b) → (∀ i b, ChunkSlot.create f.core.layout i [] = .ok b → Q b) →
        (∀ b bs b', Q b → b.setData bs = .ok b' → Q b') → (∀ b v, Q b → Q (b.setNext v)) → ∀ b ∈ c', Q b := by
  set p := ChunkSlot.payloadCapacity f.core.layout with hpdef
  set n := slotCount p data.length with hndef
  have hneed : max (pieces (p - 1) data).length 1 = n := max_length_pieces hp data
  have hn : 1 ≤ n := le_max_left _ _
  have hclen : 1 ≤ c.length := List.length_pos_iff.mpr hc
  have htake : (c.take n).length = min n c.length := List.length_take
  -- shrink to at most `n` slots, then grow to exactly `n`
  obtain ⟨a₁, hrun₁, hlatest₁, hpool₁, hs₁⟩ := shrink_eq h hS n
  obtain ⟨a₂, news, hrun₂, hs₂, hlen₂, hids₂, hpool₂, hnews⟩ := grow_eq x (n - (c.take n).length) (c.take n) hs₁
    (Function.update_self ..) (fun _ => by
      show a₁.latest.value + _ < _
      rw [hlatest₁]
      have : f.core.latest = f.core.allocator.latest.value := rfl
      omega)
  have hlen : (c.take n ++ news).length = n := by
    rw [List.length_append, hlen₂, htake]
    omega
  obtain ⟨c', hrun₃, hids, hsized', hdata', hlinks, hQ⟩ := fill_eq (d := d) (f := (f.withAllocator a₁).withAllocator a₂)
    hp' (c.take n ++ news) (pieces (p - 1) data)
    (by
      intro b hb
      rcases List.mem_append.mp hb with hb | hb
      · exact hsized b (List.mem_of_mem_take hb)
      · exact (hnews b hb).1)
    (fun q hq => by have := length_le_of_mem_pieces hq; omega)
    (by rw [hlen, ← hneed]; exact le_max_left _ _)
  rw [Function.update_idem] at hs₂
  -- every slot the chain now has is allocated, so its id fits a link
  have hlt : ∀ b ∈ c.take n ++ news, b.id < Nat.pow 256 8 := fun b hb => by
    have ha := (hs₂.parts.allocated b.id).mpr ⟨x, by
      rw [Function.update_self]
      exact List.mem_map_of_mem hb⟩
    exact Nat.lt_of_le_of_lt ha.2.1 hs₂.core.allocator.latest_lt
  have hne : c.take n ++ news ≠ [] := fun h0 => by
    have := congrArg List.length h0
    rw [hlen] at this
    simp at this
    omega
  refine ⟨a₂, c', ?_, by rwa [hids], hsized', by rw [hdata', flatten_pieces], ?_, ?_, ?_, hlinks hlt hne, ?_⟩
  · unfold write
    simp only [bind, EStateM.bind, FileOp.self]
    rw [← hpdef, hneed, hrun₁]
    simp only
    rw [hrun₂]
    simpa using hrun₃
  · rw [← List.length_map (f := ChunkSlot.id), hids, List.length_map, hlen]
  · -- the first slot is kept: `c` is not empty and at least one slot is needed
    rw [hids, List.map_append, List.head?_append]
    obtain ⟨b, c₀, rfl⟩ := List.exists_cons_of_ne_nil hc
    obtain ⟨m, hm⟩ : ∃ m, n = m + 1 := ⟨n - 1, by omega⟩
    rw [hm]
    simp
  · -- the kept slots, then the ones the pool hands out after the releases
    show (c'.map ChunkSlot.id, a₂.pool) = ((c.map ChunkSlot.id).take n ++ _, _)
    rw [hids, List.map_append, hids₂, hpool₂, show (f.withAllocator a₁).core.allocator.pool = a₁.pool from rfl,
      hpool₁]
    simp only [List.map_take, List.map_drop, List.map_reverse, List.length_take, List.length_map]
    rfl
  · intro Q hQc hnew hset hnext
    refine hQ Q (fun b hb => ?_) hset hnext
    rcases List.mem_append.mp hb with hb | hb
    · exact hQc b (List.mem_of_mem_take hb)
    · exact hnew b.id b (hnews b hb).2.2

/-! ## The blobs a file holds -/

variable {M : Nat → Option (List UInt8)}

/-- A blob file between two flushes holding the blobs of the map `M`: it is open and true to its
store; it caches a chain for each blob of `M` and for no other id, whose first slot is the blob's
id and whose slots hold the blob and number `slotCount p L` for a blob of `L` bytes, `p` being a
slot's payload; and the chains split the allocated ids. -/
structure Stores (d : Disk) (f : BlobFile) (M : Nat → Option (List UInt8)) : Prop where
  splits : Splits d f f.slots
  opened : f.core.disposed = false
  payload_pos : 0 < ChunkSlot.payloadCapacity f.core.layout
  payload_lt : ChunkSlot.payloadCapacity f.core.layout < Nat.pow 256 4
  blobs : ∀ x, (f.records[x]?).map Chain.data = M x
  sized : ∀ (x : Nat) (c : Chain), f.records[x]? = some c →
    ∀ b ∈ c, b.Sized (ChunkSlot.payloadCapacity f.core.layout)
  count : ∀ (x : Nat) (c : Chain), f.records[x]? = some c →
    c.length = slotCount (ChunkSlot.payloadCapacity f.core.layout) c.data.length
  first : ∀ (x : Nat) (c : Chain), f.records[x]? = some c → (c.map ChunkSlot.id).head? = some x

/-- A blob's first slot is allocated. -/
theorem Stores.allocated_of_getElem? (h : f.Stores d M) {x : Nat} {c : Chain} (hc : f.records[x]? = some c) :
    f.core.allocator.pool.Allocated x := by
  refine (h.splits.parts.allocated x).mpr ⟨x, ?_⟩
  rw [slots_of_getElem? hc]
  exact List.mem_of_mem_head? (h.first x c hc)

/-- An id that is not allocated holds no blob. -/
theorem Stores.getElem?_of_not_allocated (h : f.Stores d M) {x : Nat} (hx : ¬ f.core.allocator.pool.Allocated x) :
    f.records[x]? = none ∧ M x = none := by
  cases hc : f.records[x]? with
  | none => exact ⟨rfl, by rw [← h.blobs x, hc]; rfl⟩
  | some c => exact absurd (h.allocated_of_getElem? hc) hx

theorem Stores.getElem?_of_isSome (h : f.Stores d M) {x : Nat} (hx : (M x).isSome) :
    ∃ c, f.records[x]? = some c ∧ M x = some c.data := by
  cases hc : f.records[x]? with
  | none =>
    rw [← h.blobs x, hc] at hx
    cases hx
  | some c => exact ⟨c, rfl, by rw [← h.blobs x, hc]; rfl⟩

/-- The invariant reads the cache only through lookups. -/
theorem Stores.congr {f' : BlobFile} (h : f.Stores d M) (hcore : f'.core = f.core)
    (hr : ∀ x : Nat, f'.records[x]? = f.records[x]?) : f'.Stores d M := by
  have hslots : f'.slots = f.slots := funext fun x => by simp only [slots, hr]
  refine ⟨⟨hcore ▸ h.splits.core, by rw [hslots, hcore]; exact h.splits.parts⟩, hcore ▸ h.opened,
    hcore ▸ h.payload_pos, hcore ▸ h.payload_lt, fun x => by rw [hr]; exact h.blobs x,
    fun x c hc => hcore ▸ h.sized x c (by rwa [← hr]), fun x c hc => hcore ▸ h.count x c (by rwa [← hr]),
    fun x c hc => h.first x c (by rwa [← hr])⟩

/-- Putting a written chain under its id holds the blob it holds there. -/
theorem Stores.insert (h : f.Stores d M) {x : Nat} {a : Allocator} {c : Chain}
    (hsplit : Splits d (f.withAllocator a) (Function.update f.slots x (c.map ChunkSlot.id)))
    (hsized : ∀ b ∈ c, b.Sized (ChunkSlot.payloadCapacity f.core.layout))
    (hcount : c.length = slotCount (ChunkSlot.payloadCapacity f.core.layout) c.data.length)
    (hfirst : (c.map ChunkSlot.id).head? = some x) :
    Stores d ⟨{ f.core with allocator := a }, f.records.insert x c⟩ (Function.update M x (some c.data)) := by
  have hget : ∀ y : Nat, (f.records.insert x c)[y]? = if x = y then some c else f.records[y]? :=
    fun y => FreeChain.getElem?_insert_nat _ _ _ _
  refine ⟨⟨hsplit.core, by rw [slots_insert]; exact hsplit.parts⟩, h.opened, h.payload_pos, h.payload_lt,
    fun y => ?_, fun y c' hc' => ?_, fun y c' hc' => ?_, fun y c' hc' => ?_⟩
  all_goals rw [hget] at *
  all_goals by_cases hy : x = y
  · subst hy
    simp
  · rw [if_neg hy, Function.update_of_ne (Ne.symm hy)]
    exact h.blobs y
  · rw [if_pos hy] at hc'
    cases hc'
    exact hsized
  · rw [if_neg hy] at hc'
    exact h.sized y c' hc'
  · rw [if_pos hy] at hc'
    cases hc'
    exact hcount
  · rw [if_neg hy] at hc'
    exact h.count y c' hc'
  · rw [if_pos hy] at hc'
    cases hc'
    rw [hfirst, hy]
  · rw [if_neg hy] at hc'
    exact h.first y c' hc'

/-- Taking a blob's chain out of the cache, its slots released, drops the blob. -/
theorem Stores.erase (h : f.Stores d M) {x : Nat} {a : Allocator}
    (hsplit : Splits d (f.withAllocator a) (Function.update f.slots x [])) :
    Stores d ⟨{ f.core with allocator := a }, f.records.erase x⟩ (Function.update M x none) := by
  have hget : ∀ y : Nat, (f.records.erase x)[y]? = if x = y then none else f.records[y]? :=
    fun y => FreeChain.getElem?_erase_nat _ _ _
  -- the other blobs keep their chains
  have hkeep : ∀ (y : Nat) (c' : Chain), (f.records.erase x)[y]? = some c' → f.records[y]? = some c' := by
    intro y c' hc'
    rw [hget] at hc'
    split at hc'
    · cases hc'
    · exact hc'
  refine ⟨⟨hsplit.core, by rw [slots_erase]; exact hsplit.parts⟩, h.opened, h.payload_pos, h.payload_lt,
    fun y => ?_, fun y c' hc' => h.sized y c' (hkeep y c' hc'), fun y c' hc' => h.count y c' (hkeep y c' hc'),
    fun y c' hc' => h.first y c' (hkeep y c' hc')⟩
  show ((f.records.erase x)[y]?).map Chain.data = _
  rw [hget]
  by_cases hy : x = y
  · subst hy
    simp
  · rw [if_neg hy, Function.update_of_ne (Ne.symm hy)]
    exact h.blobs y

/-! ## Each operation -/

theorem take_cached {x : Nat} {c : Chain} (hc : f.records[x]? = some c) :
    take x (d, f) = .ok c (d, { f with records := f.records.erase x }) := by
  simp [take, bind, EStateM.bind, FileOp.self, hc, FileOp.modify, pure, EStateM.pure]

theorem putBack_eq (x : Nat) (c : Chain) : putBack x c (d, f) = .ok () (d, { f with records := f.records.insert x c }) :=
  rfl

/-- Room for a blob of `len` bytes written under `id?`, or under a free id: the ids it may take,
past `latest` and past the id asked for, fit an eight-byte link. -/
def Room (f : BlobFile) (id? : Option Nat) (len : Nat) : Prop :=
  max f.core.latest (id?.getD 0) + slotCount (ChunkSlot.payloadCapacity f.core.layout) len < Nat.pow 256 8

instance (f : BlobFile) (id? : Option Nat) (len : Nat) : Decidable (f.Room id? len) :=
  inferInstanceAs (Decidable (_ < _))

/-- A claim that succeeds names a nonzero id that was not allocated. -/
theorem claim_fresh (h : Splits d f S) {x : Nat} (hx : x < Nat.pow 256 8) {a : Allocator}
    (ha : f.core.allocator.tryUse d f.core.sid x = some a) : x ≠ 0 ∧ ¬ f.core.allocator.pool.Allocated x := by
  have hc : f.core.allocator.pool.claim x = some a.pool := by rw [← (h.core.allocator.tryUse hx).1, ha, Option.map_some]
  have := (IdPool.claim_eq_none x).not.mp (by rw [hc]; exact Option.some_ne_none _)
  exact not_or.mp this

/-- Claiming the id of a new blob: a free id, or the id asked for unless it is 0 or allocated.
The new blob owns its first slot, and there is room for the slots it takes next. -/
theorem Stores.claim (h : f.Stores d M) {id? : Option Nat} {len : Nat} (hroom : f.Room id? len) :
    (∃ x a, onCore (BlockFile.claim id?) (d, f) = .ok x (d, f.withAllocator a) ∧ 0 < x ∧ M x = none ∧
        (id? = none ∨ id? = some x) ∧ Splits d (f.withAllocator a) (Function.update f.slots x [x]) ∧
        a.latest.value + slotCount (ChunkSlot.payloadCapacity f.core.layout) len ≤ Nat.pow 256 8) ∨
      (∃ x, id? = some x ∧ onCore (BlockFile.claim id?) (d, f) = .error (.idInUse x) (d, f)) := by
  have hn : 1 ≤ slotCount (ChunkSlot.payloadCapacity f.core.layout) len := le_max_left _ _
  have hlatest : f.core.latest = f.core.allocator.latest.value := rfl
  unfold Room at hroom
  cases id? with
  | none =>
    -- a free id, or the one after `latest`
    rw [Option.getD_none, Nat.max_zero] at hroom
    have hv := h.splits.core.allocator.valid
    obtain ⟨hsplit, hle⟩ := h.splits.next (by omega) ((f.core.allocator.nextFreeId d f.core.sid).1)
    obtain ⟨hpair, -⟩ := h.splits.core.allocator.nextFreeId fun _ => by omega
    have h₁ : (f.core.allocator.nextFreeId d f.core.sid).1 = f.core.allocator.pool.next.1 := congrArg Prod.fst hpair
    have hfresh : ¬ f.core.allocator.pool.Allocated (f.core.allocator.nextFreeId d f.core.sid).1 := by
      rw [h₁]
      exact hv.next.2.2.1
    obtain ⟨hr, hM⟩ := h.getElem?_of_not_allocated hfresh
    have hslot : f.slots (f.core.allocator.nextFreeId d f.core.sid).1 = [] := by simp [slots, hr]
    rw [hslot, List.nil_append] at hsplit
    have hpos : 0 < (f.core.allocator.nextFreeId d f.core.sid).1 := by
      have := (hsplit.parts.allocated _).mpr ⟨_, by rw [Function.update_self]; exact List.mem_singleton_self _⟩
      exact this.1
    refine .inl ⟨_, _, nextFreeId_eq, hpos, hM, .inl rfl, hsplit, by omega⟩
  | some x =>
    rw [claim_eq]
    cases ha : f.core.allocator.tryUse d f.core.sid x with
    | none => exact .inr ⟨x, rfl, rfl⟩
    | some a =>
      simp only [Option.getD_some] at hroom
      have hx : x < Nat.pow 256 8 := by have := le_max_right f.core.latest x; omega
      obtain ⟨hx0, hfresh⟩ := claim_fresh h.splits hx ha
      obtain ⟨hr, hM⟩ := h.getElem?_of_not_allocated hfresh
      have hslot : f.slots x = [] := by simp [slots, hr]
      obtain ⟨hsplit, hle⟩ := h.splits.claim hx ha hslot
      exact .inl ⟨x, a, rfl, Nat.pos_of_ne_zero hx0, hM, .inr rfl, hsplit, by omega⟩

/-- Adding a blob: under a free id, or under the id asked for unless it is 0 or allocated, which
is then refused with nothing changed. -/
theorem Stores.add (h : f.Stores d M) {data : List UInt8} {id? : Option Nat} (hroom : f.Room id? data.length) :
    (∃ x f', BlobFile.add data id? (d, f) = .ok x (d, f') ∧ 0 < x ∧ M x = none ∧
        (id? = none ∨ id? = some x) ∧ f'.core.layout = f.core.layout ∧
        f'.Stores d (Function.update M x (some data))) ∨
      (∃ x, id? = some x ∧ BlobFile.add data id? (d, f) = .error (.idInUse x) (d, f)) := by
  rcases h.claim hroom with ⟨x, a, hrun, hx0, hM, hid, hsplit, hroom'⟩ | ⟨x, hid, hrun⟩
  · -- the blob's first slot is its id; writing it takes the rest
    obtain ⟨b, hb, hbid, hsized, -⟩ := ChunkSlot.create_nil f.core.layout x
    obtain ⟨a', c', hw, hsplit', hsized', hdata', hlen', hhead', -, -, -⟩ :=
      write_eq hsplit (x := x) (c := [b]) (by rw [Function.update_self, List.map_singleton, hbid])
        (List.cons_ne_nil _ _) (by simpa using hsized) h.payload_pos h.payload_lt data hroom'
    rw [withAllocator_withAllocator, Function.update_idem] at hsplit'
    simp only [layout_withAllocator] at hsized' hlen'
    refine .inl ⟨x, ⟨{ f.core with allocator := a' }, f.records.insert x c'⟩, ?_, hx0, hM, hid, rfl, ?_⟩
    · unfold BlobFile.add
      rw [FileOp.bind_ok (ensureOpen_eq h.opened), FileOp.bind_ok hrun]
      simp only [bind, EStateM.bind, FileOp.self, layout_withAllocator, hb]
      rw [hw]
      rfl
    · have := h.insert hsplit' hsized' (by rw [hlen', hdata']) (by rw [hhead']; simp [hbid])
      rwa [hdata'] at this
  · refine .inr ⟨x, hid, ?_⟩
    unfold BlobFile.add
    rw [FileOp.bind_ok (ensureOpen_eq h.opened), FileOp.bind_error hrun]

theorem isAllocated_eq (f : BlobFile) (x : Nat) :
    f.core.isAllocated x = decide (f.core.allocator.pool.Allocated x) := by
  rw [Bool.eq_iff_iff, decide_eq_true_iff]
  exact Allocator.isAllocated_iff _ _

/-- Reading a blob answers what the map holds at the id. -/
theorem Stores.get (h : f.Stores d M) {x : Nat} (hx : f.core.allocator.pool.Allocated x → (M x).isSome) :
    ∃ f', BlobFile.get x (d, f) = .ok (M x) (d, f') ∧ f'.core.layout = f.core.layout ∧ f'.Stores d M := by
  by_cases ha : f.core.allocator.pool.Allocated x
  · obtain ⟨c, hc, hM⟩ := h.getElem?_of_isSome (hx ha)
    refine ⟨⟨f.core, (f.records.erase x).insert x c⟩, ?_, rfl, h.congr rfl fun y => ?_⟩
    · unfold BlobFile.get
      rw [FileOp.bind_ok (ensureOpen_eq h.opened)]
      simp only [bind, EStateM.bind, FileOp.self, isAllocated_eq, ha, decide_true, Bool.not_true,
        Bool.false_eq_true, if_false, take_cached hc, putBack_eq, hM]
      rfl
    · show ((f.records.erase x).insert x c)[y]? = _
      rw [FreeChain.getElem?_insert_nat, FreeChain.getElem?_erase_nat]
      by_cases hy : x = y
      · subst hy
        simp [hc]
      · simp [hy]
  · obtain ⟨-, hM⟩ := h.getElem?_of_not_allocated ha
    refine ⟨f, ?_, rfl, h⟩
    unfold BlobFile.get
    rw [FileOp.bind_ok (ensureOpen_eq h.opened)]
    simp only [bind, EStateM.bind, FileOp.self, isAllocated_eq, ha, decide_false, Bool.not_false,
      if_true, hM]
    rfl

/-- Rewriting a blob puts the new blob at the id; an id that is not allocated is added with it,
and refused only when it is 0. -/
theorem Stores.update (h : f.Stores d M) {x : Nat} {data : List UInt8}
    (hx : f.core.allocator.pool.Allocated x → (M x).isSome) (hroom : f.Room (some x) data.length) :
    (∃ f', BlobFile.update x data (d, f) = .ok () (d, f') ∧ f'.core.layout = f.core.layout ∧
        f'.Stores d (Function.update M x (some data))) ∨
      (M x = none ∧ BlobFile.update x data (d, f) = .error (.idInUse x) (d, f)) := by
  by_cases ha : f.core.allocator.pool.Allocated x
  · -- the blob is rewritten in its own chain
    obtain ⟨c, hc, hM⟩ := h.getElem?_of_isSome (hx ha)
    have hsplit : Splits d { f with records := f.records.erase x } f.slots := ⟨h.splits.core, h.splits.parts⟩
    obtain ⟨a, c', hw, hsplit', hsized', hdata', hlen', hhead', -, -, -⟩ :=
      write_eq hsplit (slots_of_getElem? hc) (fun hnil => by simpa [hnil] using h.first x c hc)
        (h.sized x c hc) h.payload_pos h.payload_lt data (by
          show f.core.latest + slotCount (ChunkSlot.payloadCapacity f.core.layout) data.length ≤ _
          unfold Room at hroom
          rw [Option.getD_some] at hroom
          have := le_max_left f.core.latest x
          omega)
    refine .inl ⟨⟨{ f.core with allocator := a }, (f.records.erase x).insert x c'⟩, ?_, rfl, ?_⟩
    · unfold BlobFile.update
      rw [FileOp.bind_ok (ensureOpen_eq h.opened)]
      simp only [bind, EStateM.bind, FileOp.self, isAllocated_eq, ha, decide_true, Bool.not_true,
        Bool.false_eq_true, if_false, take_cached hc, hw, putBack_eq]
      rfl
    · have hins := h.insert (a := a) (c := c') ⟨hsplit'.core, hsplit'.parts⟩ hsized' (by rw [hlen', hdata'])
        (by rw [hhead', ← slots_of_getElem? hc]; exact h.first x c hc ▸ (slots_of_getElem? hc ▸ rfl))
      rw [hdata'] at hins
      refine hins.congr rfl fun y => ?_
      show ((f.records.erase x).insert x c')[y]? = (f.records.insert x c')[y]?
      rw [FreeChain.getElem?_insert_nat, FreeChain.getElem?_insert_nat, FreeChain.getElem?_erase_nat]
      by_cases hy : x = y <;> simp [hy]
  · -- an id that is not allocated is added
    obtain ⟨-, hM⟩ := h.getElem?_of_not_allocated ha
    have hrun : BlobFile.update x data (d, f) = discard (BlobFile.add data (some x)) (d, f) := by
      unfold BlobFile.update
      rw [FileOp.bind_ok (ensureOpen_eq h.opened)]
      simp only [bind, EStateM.bind, FileOp.self, isAllocated_eq, ha, decide_false, Bool.not_false,
        if_true]
    rcases h.add hroom with ⟨x', f', hadd, -, -, hid, hlayout, hs⟩ | ⟨x', hid, hadd⟩
    · have hx' : x = x' := by simpa using hid
      subst hx'
      refine .inl ⟨f', ?_, hlayout, hs⟩
      rw [hrun]
      simp only [discard, Functor.mapConst, Function.comp_apply, EStateM.map, hadd]
    · cases hid
      refine .inr ⟨hM, ?_⟩
      rw [hrun]
      simp only [discard, Functor.mapConst, Function.comp_apply, EStateM.map, hadd]

/-- Deleting answers whether the id held a blob, and releases every slot of it. -/
theorem Stores.delete (h : f.Stores d M) {x : Nat} (hx : f.core.allocator.pool.Allocated x → (M x).isSome) :
    ∃ f', BlobFile.delete x (d, f) = .ok (M x).isSome (d, f') ∧ f'.core.layout = f.core.layout ∧
      f'.Stores d (Function.update M x none) := by
  by_cases ha : f.core.allocator.pool.Allocated x
  · obtain ⟨c, hc, hM⟩ := h.getElem?_of_isSome (hx ha)
    have hsplit : Splits d { f with records := f.records.erase x } f.slots := ⟨h.splits.core, h.splits.parts⟩
    obtain ⟨a, hrel, -, hsplit'⟩ := releaseChain_eq x c hsplit (slots_of_getElem? hc)
    refine ⟨⟨{ f.core with allocator := a }, f.records.erase x⟩, ?_, rfl, h.erase ⟨hsplit'.core, hsplit'.parts⟩⟩
    unfold BlobFile.delete
    rw [FileOp.bind_ok (ensureOpen_eq h.opened)]
    simp only [bind, EStateM.bind, FileOp.self, isAllocated_eq, ha, decide_true, Bool.not_true,
      Bool.false_eq_true, if_false, take_cached hc, hrel, hM, Option.isSome_some]
    rfl
  · obtain ⟨-, hM⟩ := h.getElem?_of_not_allocated ha
    refine ⟨f, ?_, rfl, by rw [← hM, Function.update_eq_self]; exact h⟩
    unfold BlobFile.delete
    rw [FileOp.bind_ok (ensureOpen_eq h.opened)]
    simp only [bind, EStateM.bind, FileOp.self, isAllocated_eq, ha, decide_false, Bool.not_false,
      if_true, hM, Option.isSome_none]
    rfl

/-! ## How the slots are shared -/

/-- How a blob file's slots are shared among the blobs `M`, with `p` payload bytes to a slot: a
blob of `L` bytes owns `slotCount p L` slots, the first of which is its id, and an id holding no
blob owns none; no slot is owned twice; the allocated slots are exactly the owned ones; and
`latest` is the number of free slots plus the number of owned ones. -/
structure Shares (f : BlobFile) (M : Nat → Option (List UInt8)) (p : Nat) : Prop where
  owned : ∀ x data, M x = some data → (f.slots x).length = slotCount p data.length ∧ (f.slots x).head? = some x
  unowned : ∀ x, M x = none → f.slots x = []
  allocated : ∀ y, f.core.allocator.pool.Allocated y ↔ ∃ x, y ∈ f.slots x
  apart : ∀ x x' y, y ∈ f.slots x → y ∈ f.slots x' → x = x'
  nodup : ∀ x, (f.slots x).Nodup
  latest_eq : f.core.latest = f.core.freeCount + ((List.range' 1 f.core.latest).map fun x => (f.slots x).length).sum

theorem Stores.shares (h : f.Stores d M) : f.Shares M (ChunkSlot.payloadCapacity f.core.layout) := by
  have hparts := h.splits.parts
  refine ⟨fun x data hx => ?_, fun x hx => ?_, hparts.allocated, hparts.apart, hparts.nodup, ?_⟩
  · obtain ⟨c, hc, hM⟩ := h.getElem?_of_isSome (by rw [hx]; rfl)
    rw [hx] at hM
    cases hM
    rw [slots_of_getElem? hc, List.length_map]
    exact ⟨h.count x c hc, h.first x c hc⟩
  · cases hc : f.records[x]? with
    | none => simp [slots, hc]
    | some c => rw [← h.blobs x, hc] at hx; cases hx
  · -- a blob owns its own id, so the owners are counted once each
    refine hparts.latest_eq h.splits.core.allocator.valid fun x hx => ?_
    cases hc : f.records[x]? with
    | none => simp [slots, hc] at hx
    | some c =>
      rw [slots_of_getElem? hc]
      exact List.mem_of_mem_head? (h.first x c hc)

/-- A new blob file on an empty store holds no blob, with slots of `capacity - 12` payload
bytes. -/
theorem stores_open {store : StoreRef} {label : String} {capacity : Nat}
    (hcap : chunkHeader < capacity) (hcap' : capacity < Nat.pow 256 4) (hs : store.store < d.stores.size)
    (hempty : d.size store.store = 0) (hopen : BlobFile.open d store label capacity = .ok f) :
    f.Stores d (fun _ => none) ∧ ChunkSlot.payloadCapacity f.core.layout = capacity - chunkHeader := by
  unfold BlobFile.open at hopen
  cases hc : BlockFile.open d store label blobHeader chunkHeader capacity with
  | error e =>
    rw [hc] at hopen
    cases hopen
  | ok core =>
    rw [hc] at hopen
    cases hopen
    obtain ⟨hholds, hlayout, -, -⟩ := BlockFile.holds_open (by decide) (by decide) hcap' hs hc
    -- the store is empty, so the file is new: nothing allocated, nothing cached
    have hnew : core.allocator = Allocator.create core.layout ∧ core.disposed = false := by
      unfold BlockFile.open at hc
      rw [if_neg (show ¬capacity ≤ chunkHeader by omega)] at hc
      simp only [hempty, beq_self_eq_true, if_true] at hc
      cases hc
      exact ⟨rfl, rfl⟩
    have hpool : core.allocator.pool = ⟨0, []⟩ := by
      rw [hnew.1]
      rfl
    have hpay : ChunkSlot.payloadCapacity core.layout = capacity - chunkHeader := by
      rw [hlayout]
      rfl
    refine ⟨⟨⟨hholds, ?_⟩, hnew.2, by rw [hpay]; omega, by rw [hpay]; omega, fun x => rfl,
      fun x c hc => by simp at hc, fun x c hc => by simp at hc, fun x c hc => by simp at hc⟩, hpay⟩
    show core.allocator.pool.Parts _
    rw [hpool]
    refine ⟨fun y => ?_, fun x x' y hy => by simp [slots] at hy, fun x => by simp [slots]⟩
    simp only [IdPool.Allocated, slots]
    simp
    omega

end BlobFile

/-! ## Runs of blob operations -/

/-- What a program does to a blob file. -/
inductive BlobEvent where
  | add (data : List UInt8) (id? : Option Nat)
  | get (id : Nat)
  | update (id : Nat) (data : List UInt8)
  | delete (id : Nat)
deriving DecidableEq, Repr

/-- What a blob file answers. -/
inductive BlobAnswer where
  | id (x : Nat)
  | blob (b : Option (List UInt8))
  | done
  | deleted (b : Bool)
deriving DecidableEq, Repr

namespace BlobEvent

/-- Runs an event on a blob file and its store. -/
def onFile : BlobEvent → Disk × BlobFile → Except FileError BlobAnswer × (Disk × BlobFile)
  | .add data id?, st =>
    match BlobFile.add data id? st with
    | .ok x st' => (.ok (.id x), st')
    | .error e st' => (.error e, st')
  | .get x, st =>
    match BlobFile.get x st with
    | .ok b st' => (.ok (.blob b), st')
    | .error e st' => (.error e, st')
  | .update x data, st =>
    match BlobFile.update x data st with
    | .ok _ st' => (.ok .done, st')
    | .error e st' => (.error e, st')
  | .delete x, st =>
    match BlobFile.delete x st with
    | .ok b st' => (.ok (.deleted b), st')
    | .error e st' => (.error e, st')

/-- The blobs after an event, as its answer tells: an add puts the blob under the id it answers,
an update under its id, a delete takes the id out; a refused event changes nothing. -/
def apply : BlobEvent → Except FileError BlobAnswer → (Nat → Option (List UInt8)) → Nat → Option (List UInt8)
  | .add data _, .ok (.id x), M => Function.update M x (some data)
  | .update x data, .ok _, M => Function.update M x (some data)
  | .delete x, .ok _, M => Function.update M x none
  | _, _, M => M

/-- The answers a map of blobs allows: an add puts the blob under an id holding none, the one
asked for if any, or refuses the id asked for; a read answers the blob at the id; an update
succeeds, or refuses an id holding no blob; a delete answers whether the id held a blob. -/
def Answers : BlobEvent → (Nat → Option (List UInt8)) → Except FileError BlobAnswer → Prop
  | .add _ id?, M, .ok (.id x) => 0 < x ∧ M x = none ∧ (id? = none ∨ id? = some x)
  | .add _ id?, _, .error e => ∃ x, id? = some x ∧ e = .idInUse x
  | .get x, M, .ok (.blob b) => b = M x
  | .update _ _, _, .ok .done => True
  | .update x _, M, .error e => M x = none ∧ e = .idInUse x
  | .delete x, M, .ok (.deleted b) => b = (M x).isSome
  | _, _, _ => False

/-- What a program may pass: reads, updates and deletes name an id that starts a blob or is not
allocated, and each blob written has room for its ids. -/
def Allowed (f : BlobFile) (M : Nat → Option (List UInt8)) : BlobEvent → Prop
  | .add data id? => f.Room id? data.length
  | .get x => f.core.allocator.pool.Allocated x → (M x).isSome
  | .update x data => (f.core.allocator.pool.Allocated x → (M x).isSome) ∧ f.Room (some x) data.length
  | .delete x => f.core.allocator.pool.Allocated x → (M x).isSome

instance (f : BlobFile) (M : Nat → Option (List UInt8)) : (e : BlobEvent) → Decidable (e.Allowed f M)
  | .add _ _ => inferInstanceAs (Decidable (BlobFile.Room _ _ _))
  | .get _ => inferInstanceAs (Decidable (_ → _))
  | .update _ _ => inferInstanceAs (Decidable (_ ∧ _))
  | .delete _ => inferInstanceAs (Decidable (_ → _))

/-- Runs events on a file and its store, gathering the answers. -/
def runFile : List BlobEvent → Disk × BlobFile → List (Except FileError BlobAnswer) × (Disk × BlobFile)
  | [], st => ([], st)
  | e :: es, st => ((e.onFile st).1 :: (runFile es (e.onFile st).2).1, (runFile es (e.onFile st).2).2)

/-- The blobs after a run, as its answers tell. -/
def runMap : List BlobEvent → List (Except FileError BlobAnswer) → (Nat → Option (List UInt8)) →
    Nat → Option (List UInt8)
  | e :: es, a :: as, M => runMap es as (e.apply a M)
  | _, _, M => M

/-- Every answer of a run is one the map of blobs allows, the map following the answers. -/
def AnswersRun : (Nat → Option (List UInt8)) → List BlobEvent → List (Except FileError BlobAnswer) → Prop
  | _, [], [] => True
  | M, e :: es, a :: as => e.Answers M a ∧ AnswersRun (e.apply a M) es as
  | _, _, _ => False

/-- Every event of a run is allowed in the file and the map it meets. -/
def AllowedRun : Disk × BlobFile → (Nat → Option (List UInt8)) → List BlobEvent → Prop
  | _, _, [] => True
  | st, M, e :: es => e.Allowed st.2 M ∧ AllowedRun (e.onFile st).2 (e.apply (e.onFile st).1 M) es

/-- Whether a run is allowed, by following it on the file. -/
def decAllowedRun : (st : Disk × BlobFile) → (M : Nat → Option (List UInt8)) → (es : List BlobEvent) →
    Decidable (AllowedRun st M es)
  | _, _, [] => inferInstanceAs (Decidable True)
  | st, M, e :: es =>
    have := decAllowedRun (e.onFile st).2 (e.apply (e.onFile st).1 M) es
    inferInstanceAs (Decidable (_ ∧ _))

instance (st : Disk × BlobFile) (M : Nat → Option (List UInt8)) (es : List BlobEvent) :
    Decidable (AllowedRun st M es) :=
  decAllowedRun st M es

variable {d : Disk} {f : BlobFile} {M : Nat → Option (List UInt8)}

/-- One allowed event answers as the map of blobs allows, leaves the store as it is, and keeps
the invariant with the map its answer gives. -/
theorem step_stores (h : f.Stores d M) {e : BlobEvent} (he : e.Allowed f M) :
    e.Answers M (e.onFile (d, f)).1 ∧ (e.onFile (d, f)).2 = (d, (e.onFile (d, f)).2.2) ∧
      (e.onFile (d, f)).2.2.core.layout = f.core.layout ∧
      (e.onFile (d, f)).2.2.Stores d (e.apply (e.onFile (d, f)).1 M) := by
  cases e with
  | add data id? =>
    rcases h.add he with ⟨x, f', hrun, hx0, hM, hid, hlayout, hs⟩ | ⟨x, hid, hrun⟩
    · simp only [onFile, hrun]
      exact ⟨⟨hx0, hM, hid⟩, trivial, hlayout, hs⟩
    · simp only [onFile, hrun]
      exact ⟨⟨x, hid, rfl⟩, trivial, trivial, h⟩
  | get x =>
    obtain ⟨f', hrun, hlayout, hs⟩ := h.get he
    simp only [onFile, hrun]
    exact ⟨rfl, trivial, hlayout, hs⟩
  | update x data =>
    rcases h.update he.1 he.2 with ⟨f', hrun, hlayout, hs⟩ | ⟨hM, hrun⟩
    · simp only [onFile, hrun]
      exact ⟨trivial, trivial, hlayout, hs⟩
    · simp only [onFile, hrun]
      exact ⟨⟨hM, rfl⟩, trivial, trivial, h⟩
  | delete x =>
    obtain ⟨f', hrun, hlayout, hs⟩ := h.delete he
    simp only [onFile, hrun]
    exact ⟨rfl, trivial, hlayout, hs⟩

/-- An allowed run answers as the map of blobs allows and keeps the invariant, by induction on
the run from `step_stores`. -/
theorem runFile_stores : ∀ (es : List BlobEvent) {f : BlobFile} {M : Nat → Option (List UInt8)},
    f.Stores d M → AllowedRun (d, f) M es →
    AnswersRun M es (runFile es (d, f)).1 ∧ (runFile es (d, f)).2.2.core.layout = f.core.layout ∧
      (runFile es (d, f)).2.2.Stores d (runMap es (runFile es (d, f)).1 M)
  | [], _, _, h, _ => ⟨trivial, rfl, h⟩
  | e :: es, f, M, h, ⟨he, hes⟩ => by
    obtain ⟨hans, hst, hlayout, hs⟩ := step_stores h he
    rw [hst] at hes
    obtain ⟨hans', hlayout', hs'⟩ := runFile_stores es hs hes
    simp only [runFile, runMap, AnswersRun]
    rw [hst]
    exact ⟨⟨hans, hans'⟩, hlayout'.trans hlayout, hs'⟩

/-- From a new blob file on an empty store with slots of `capacity` bytes, every run of adds,
reads, updates and deletes that names in reads, updates and deletes only ids starting a blob or
not allocated, and leaves room for its ids, answers as a map of blobs: a read gives the last blob
written at the id, byte for byte, whatever its length. All along the blobs share the slots: a
blob of `L` bytes owns `max 1 ⌈L / p⌉` of them for `p = capacity - 12`, its id first; no slot
is owned twice; the allocated slots are the owned ones; and `latest` counts the free slots and
the owned ones. -/
theorem runFile_keeps_blobs {store : StoreRef} {label : String} {capacity : Nat}
    (hcap : chunkHeader < capacity) (hcap' : capacity < Nat.pow 256 4) (hs : store.store < d.stores.size)
    (hempty : d.size store.store = 0) (hopen : BlobFile.open d store label capacity = .ok f)
    (es : List BlobEvent) (hes : AllowedRun (d, f) (fun _ => none) es) :
    AnswersRun (fun _ => none) es (runFile es (d, f)).1 ∧
      (runFile es (d, f)).2.2.Shares (runMap es (runFile es (d, f)).1 fun _ => none) (capacity - chunkHeader) := by
  obtain ⟨h, hpay⟩ := BlobFile.stores_open hcap hcap' hs hempty hopen
  obtain ⟨hans, hlayout, hstores⟩ := runFile_stores es h hes
  refine ⟨hans, ?_⟩
  have := hstores.shares
  rwa [hlayout, hpay] at this

/-- Three bytes added to a new file on an empty store and read back. -/
theorem runFile_keeps_blobs_of_add_get :
    AnswersRun (fun _ => none) [.add [1, 2, 3] none, .get 1]
        (runFile [.add [1, 2, 3] none, .get 1] ({ stores := #[ByteArray.empty] },
          ⟨⟨"blobs", ⟨0, none⟩, ⟨blobHeader, 20⟩, Cell.create 8 4 20, Allocator.create ⟨blobHeader, 20⟩,
            true, false⟩, ∅⟩)).1 ∧
      (runFile [.add [1, 2, 3] none, .get 1] ({ stores := #[ByteArray.empty] },
          ⟨⟨"blobs", ⟨0, none⟩, ⟨blobHeader, 20⟩, Cell.create 8 4 20, Allocator.create ⟨blobHeader, 20⟩,
            true, false⟩, ∅⟩)).2.2.Shares
        (runMap [.add [1, 2, 3] none, .get 1]
          (runFile [.add [1, 2, 3] none, .get 1] ({ stores := #[ByteArray.empty] },
            ⟨⟨"blobs", ⟨0, none⟩, ⟨blobHeader, 20⟩, Cell.create 8 4 20, Allocator.create ⟨blobHeader, 20⟩,
              true, false⟩, ∅⟩)).1
          fun _ => none) (20 - chunkHeader) :=
  @runFile_keeps_blobs _ _ ⟨0, none⟩ "blobs" 20 (by decide) (by decide) (by decide) (by decide) rfl _ (by decide +kernel)

end BlobEvent

end ColumnDb.Blob
