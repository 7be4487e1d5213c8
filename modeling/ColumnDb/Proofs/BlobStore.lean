import Mathlib
import ColumnDb.Proofs.DataRows

/-!
# Blobs held in stored chains

`ColumnDb.Proofs.BlobChain` follows a blob file between two flushes, every blob in its cache.
A flush writes the cached chains to the store and empties the cache, and a later read follows the
stored links again. This module carries the blob map across that: `BlobFile.Holds d f S M` says
that the file `f` over `d` holds the blobs `M`, the blob at `x` in the slots `S x`, each blob in its
cached chain or else in the chain its slots make in the store (`chainAt`). Either way the chain
links each slot to the next and the last to 0 (`Chain.Linked`), so reading a stored chain finds
exactly its slots (`loadFrom_chain`); and every cached slot is sound, so a flush writes it back.

The statements here read a file under this invariant: a blob's chain has its slots
(`Holds.ids_chainAt`), its slots are distinct allocated ids no more than `latest`
(`Holds.length_le`), a stored chain loads back as its slots (`Holds.load_eq`), and taking a blob
out of the cache answers its chain (`Holds.take`).
-/

set_option autoImplicit false

namespace ColumnDb.Blob

open ColumnDb.Slot ColumnDb.Disk

/-- The links of a chain: each slot's link names the next slot, and the last slot's link is 0. -/
def Chain.Linked (c : Chain) : Prop := c.map (·.next.value) = (c.map ChunkSlot.id).tail ++ [0]

namespace BlobFile

variable {d : Disk} {f : BlobFile} {S : Nat → List Nat} {M : Nat → Option (List UInt8)}

/-- The chain the file reads for the blob at `x` with slots `S x`: the cached chain, or else the
store's slots. -/
def chainAt (d : Disk) (f : BlobFile) (S : Nat → List Nat) (x : Nat) : Chain :=
  (f.records[x]?).getD ((S x).map (ChunkSlot.load d f.core.sid f.core.layout))

/-- A blob file over `d` holds the blobs `M` in the slots `S`: its file part is open and true to
its store, with the blob header and room for the chunk header, and its pool splits among the
slot lists; each cached chain has the blob's slots, none of them dirty out of place; a blob is
what its chain holds, its first slot is its id, its chain is linked, and it has as many slots as
its length needs. -/
structure Holds (d : Disk) (f : BlobFile) (S : Nat → List Nat) (M : Nat → Option (List UInt8)) : Prop where
  splits : Splits d f S
  opened : f.core.disposed = false
  layout : f.core.layout.header = blobHeader ∧ chunkHeader < f.core.layout.capacity
  cached : ∀ x c, f.records[x]? = some c →
    c.map ChunkSlot.id = S x ∧ c ≠ [] ∧ ∀ b ∈ c, b.Sound f.core.layout d f.core.sid b.id
  blobs : ∀ x, M x = if S x = [] then none else some (f.chainAt d S x).data
  first : ∀ x, S x ≠ [] → (S x).head? = some x
  linked : ∀ x, S x ≠ [] → (f.chainAt d S x).Linked
  count : ∀ x, S x ≠ [] →
    (S x).length = slotCount (ChunkSlot.payloadCapacity f.core.layout) (f.chainAt d S x).data.length

theorem chainAt_of_cached {x : Nat} {c : Chain} (h : f.records[x]? = some c) : f.chainAt d S x = c := by
  simp [chainAt, h]

theorem chainAt_of_uncached {x : Nat} (h : f.records[x]? = none) :
    f.chainAt d S x = (S x).map (ChunkSlot.load d f.core.sid f.core.layout) := by
  simp [chainAt, h]

/-- The chain read for a blob has the blob's slots. -/
theorem Holds.ids_chainAt (h : f.Holds d S M) (x : Nat) : (f.chainAt d S x).map ChunkSlot.id = S x := by
  cases hc : f.records[x]? with
  | some c => rw [chainAt_of_cached hc]; exact (h.cached x c hc).1
  | none =>
    rw [chainAt_of_uncached hc, List.map_map]
    exact List.map_id'' (fun _ => rfl) _

/-- Every slot of the chain read for a blob is sound. -/
theorem Holds.sound_chainAt (h : f.Holds d S M) (x : Nat) :
    ∀ b ∈ f.chainAt d S x, b.Sound f.core.layout d f.core.sid b.id := by
  cases hc : f.records[x]? with
  | some c => rw [chainAt_of_cached hc]; exact (h.cached x c hc).2.2
  | none =>
    rw [chainAt_of_uncached hc]
    intro b hb
    obtain ⟨k, -, rfl⟩ := List.mem_map.mp hb
    exact ChunkSlot.Sound.load d _ _ k h.layout.2.le

theorem Holds.payload_pos (h : f.Holds d S M) : 0 < ChunkSlot.payloadCapacity f.core.layout := by
  have := h.layout.2
  unfold ChunkSlot.payloadCapacity
  omega

/-- A blob's slots are allocated ids, each below `2 ^ 64`. -/
theorem Holds.lt_of_mem (h : f.Holds d S M) {x k : Nat} (hk : k ∈ S x) :
    f.core.allocator.pool.Allocated k ∧ k < Nat.pow 256 8 := by
  have ha := (h.splits.parts.allocated k).mpr ⟨x, hk⟩
  exact ⟨ha, Nat.lt_of_le_of_lt ha.2.1 h.splits.core.allocator.latest_lt⟩

/-- An id that is not allocated starts no blob. -/
theorem Holds.eq_nil (h : f.Holds d S M) {x : Nat} (hx : ¬ f.core.allocator.pool.Allocated x) : S x = [] := by
  by_contra hne
  exact hx (h.lt_of_mem (List.mem_of_mem_head? (h.first x hne))).1

theorem Holds.eq_none (h : f.Holds d S M) {x : Nat} (hx : S x = []) : M x = none := by
  rw [h.blobs x, if_pos hx]

theorem Holds.eq_some (h : f.Holds d S M) {x : Nat} (hx : S x ≠ []) : M x = some (f.chainAt d S x).data := by
  rw [h.blobs x, if_neg hx]

/-! ## Reading a stored chain -/

/-- Reading a chain from the store follows its links: distinct allocated slots whose stored
links name each the next, and the last none, read back as those slots, given fuel past their
number and room below `latest` for them after the slots already read. -/
theorem loadFrom_chain (core : BlockFile) (start : Nat) :
    ∀ (ids : List Nat) (fuel : Nat) (acc : Chain),
      (∀ k ∈ ids, 0 < k ∧ k ≤ core.latest) → acc.length + ids.length ≤ core.latest → ids.length < fuel →
      (ids.map (ChunkSlot.load d core.sid core.layout)).map (·.next.value) = ids.drop 1 ++ [0] →
      loadFrom d core start fuel (ids.head?.getD 0) acc =
        .ok (acc.reverse ++ ids.map (ChunkSlot.load d core.sid core.layout))
  | [], fuel + 1, acc, _, _, _, _ => by simp [loadFrom]
  | k :: rest, fuel + 1, acc, hids, hroom, hfuel, hlinks => by
    obtain ⟨hk0, hkl⟩ := hids k List.mem_cons_self
    simp only [List.map_cons, List.drop_one, List.tail_cons] at hlinks
    have hacc : ¬ acc.length ≥ core.latest := by simp only [List.length_cons] at hroom; omega
    -- reading slot `k` moves on to the slot its link names
    have hstep : loadFrom d core start (fuel + 1) k acc =
        loadFrom d core start fuel (ChunkSlot.load d core.sid core.layout k).next.value
          (ChunkSlot.load d core.sid core.layout k :: acc) := by
      simp only [loadFrom, beq_iff_eq, Nat.pos_iff_ne_zero.mp hk0, if_false, gt_iff_lt, not_lt.mpr hkl, hacc,
        decide_false, Bool.or_self, Bool.false_eq_true]
    rw [List.head?_cons, Option.getD_some, hstep]
    cases rest with
    | nil =>
      -- the last slot links to 0, which ends the read
      have hnext : (ChunkSlot.load d core.sid core.layout k).next.value = 0 := by simpa using hlinks
      obtain ⟨fuel', rfl⟩ : ∃ fuel', fuel = fuel' + 1 := ⟨fuel - 1, by simp only [List.length_cons] at hfuel; omega⟩
      simp [hnext, loadFrom]
    | cons r rest =>
      obtain ⟨hnext, hrest⟩ := List.cons.inj hlinks
      have ih := loadFrom_chain core start (r :: rest) fuel (ChunkSlot.load d core.sid core.layout k :: acc)
        (fun j hj => hids j (List.mem_cons_of_mem k hj))
        (by simp only [List.length_cons] at hroom ⊢; omega) (by simp only [List.length_cons] at hfuel ⊢; omega)
        (by simpa using hrest)
      rw [hnext]
      simpa using ih

/-- A blob's chain is at most as long as `latest`: its slots are distinct allocated ids. -/
theorem Holds.length_le (h : f.Holds d S M) (x : Nat) : (S x).length ≤ f.core.latest := by
  have hsub : (S x).toFinset ⊆ Finset.Icc 1 f.core.latest := fun k hk => by
    obtain ⟨⟨hpos, hle, -⟩, -⟩ := h.lt_of_mem (List.mem_toFinset.mp hk)
    exact Finset.mem_Icc.mpr ⟨hpos, hle⟩
  have := Finset.card_le_card hsub
  rw [List.toFinset_card_of_nodup (h.splits.parts.nodup x), Nat.card_Icc] at this
  exact le_trans this (by omega)

/-- Loading a stored blob reads its chain. -/
theorem Holds.load_eq (h : f.Holds d S M) {x : Nat} (hx : S x ≠ []) (hc : f.records[x]? = none) :
    BlobFile.load x (d, f) = .ok (f.chainAt d S x) (d, f) := by
  have hhead : (S x).head?.getD 0 = x := by rw [h.first x hx]; rfl
  have hlinked := h.linked x hx
  unfold Chain.Linked at hlinked
  rw [h.ids_chainAt x, chainAt_of_uncached hc, ← List.drop_one] at hlinked
  rw [chainAt_of_uncached hc]
  have hload := loadFrom_chain (d := d) f.core x (S x) (f.core.latest + 1) []
    (fun k hk => ⟨(h.lt_of_mem hk).1.1, (h.lt_of_mem hk).1.2.1⟩) (by simpa using h.length_le x)
    (by have := h.length_le x; omega) hlinked
  rw [hhead] at hload
  simp [BlobFile.load, bind, EStateM.bind, FileOp.self, FileOp.disk, hload, pure, EStateM.pure]

/-- Taking a blob out answers its chain and leaves the file with the blob out of the cache. -/
theorem Holds.take (h : f.Holds d S M) {x : Nat} (hx : S x ≠ []) :
    ∃ f', BlobFile.take x (d, f) = .ok (f.chainAt d S x) (d, f') ∧ f'.core = f.core ∧
      ∀ y, f'.records[y]? = if x = y then none else f.records[y]? := by
  cases hc : f.records[x]? with
  | some c =>
    refine ⟨{ f with records := f.records.erase x }, by rw [take_cached hc, chainAt_of_cached hc], rfl, fun y => ?_⟩
    exact FreeChain.getElem?_erase_nat _ _ _
  | none =>
    have hrun : BlobFile.take x (d, f) = BlobFile.load x (d, f) := by
      simp [BlobFile.take, bind, EStateM.bind, FileOp.self, hc]
    refine ⟨f, by rw [hrun, h.load_eq hx hc], rfl, fun y => ?_⟩
    by_cases hy : x = y
    · subst hy
      rw [if_pos rfl, hc]
    · rw [if_neg hy]

end BlobFile

end ColumnDb.Blob
