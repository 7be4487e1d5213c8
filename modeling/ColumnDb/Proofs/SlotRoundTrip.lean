import Mathlib
import ColumnDb.Proofs.ChunkFlush

/-!
# Slots written back and read again

A chunk slot or a node slot held in the cache is made anew with a payload, or read from its place
in the store, and then changed by any number of setter calls. However it got there, flushing it
and loading its slot again gives it back with every field clean: the same link or links, heights,
length and payload bytes, so the same data. The flush writes only inside the slot, and the free
chain, which reads every slot through its first eight bytes, reads the chunk's link or the node's
parent there (`flushed_slots_read_back`).

The setter calls are `ChunkSlot.Edit` and `NodeSlot.Edit`; a payload too long for the slot is
refused and leaves the slot as it was. Each call keeps the slot `Sound` over the store it came
from (`Sound.edit`), and so does a run of them (`Sound.editAll`); the flush lemmas of
`ChunkFlush` and `TreeFlush` then give the round trip.
-/

set_option autoImplicit false

namespace ColumnDb.Slot

open ColumnDb.Disk

/-! ## The free chain's view of a slot -/

/-- A number read at the start of a longer read region is the number read there alone. -/
theorem Cell.ofBytes_read_prefix (d : Disk) (s off w cap : Nat) (h : w ≤ cap) :
    Cell.ofBytes off w (d.read s off cap) = Cell.load d s off w := by
  have hpre := takePadded_drop_read d s off cap 0 w (by omega)
  rw [List.drop_zero, Nat.add_zero] at hpre
  simp only [Cell.load, Cell.ofBytes, hpre, takePadded_of_length (Disk.length_read d s off w)]

/-- The free chain reads a chunk slot's link as its own. -/
theorem LinkSlot.next_load_eq_chunk (d : Disk) (s : Nat) (l : Layout) (id : Nat) (hcap : chunkHeader ≤ l.capacity) :
    (LinkSlot.load d s l id).next = (ChunkSlot.load d s l id).next :=
  (Cell.ofBytes_read_prefix d s _ 8 l.capacity (by unfold chunkHeader at hcap; omega)).symm

/-- The free chain reads a node slot's parent as its link. -/
theorem LinkSlot.next_load_eq_node (d : Disk) (s : Nat) (l : Layout) (id : Nat) (hcap : nodeHeader ≤ l.capacity) :
    (LinkSlot.load d s l id).next = (NodeSlot.load d s l id).parent :=
  (Cell.ofBytes_read_prefix d s _ 8 l.capacity (by unfold nodeHeader at hcap; omega)).symm

/-! ## Chunk slots -/

namespace ChunkSlot

/-- A setter call on a cached chunk slot. -/
inductive Edit where
  | setNext (next : Nat)
  | setData (bs : List UInt8)
deriving DecidableEq, Repr

/-- Applies a setter call; a payload too long for the slot is refused, and the slot stays as it
was. -/
def edit (b : ChunkSlot) : Edit → ChunkSlot
  | .setNext v => b.setNext v
  | .setData bs =>
    match b.setData bs with
    | .ok b' => b'
    | .error _ => b

/-- Setter calls, one after another. -/
def editAll (b : ChunkSlot) (es : List Edit) : ChunkSlot := es.foldl edit b

variable {l : Layout} {d : Disk} {s id : Nat} {b : ChunkSlot}

theorem Sound.edit (h : b.Sound l d s id) : ∀ e, (b.edit e).Sound l d s id
  | .setNext v => h.setNext v
  | .setData bs => by
    dsimp only [ChunkSlot.edit]
    split
    · next b' hb' => exact (h.of_setData hb').1
    · exact h

/-- A run of setter calls keeps a slot sound over the store it came from. -/
theorem Sound.editAll (h : b.Sound l d s id) (es : List Edit) : (b.editAll es).Sound l d s id := by
  induction es generalizing b with
  | nil => exact h
  | cons e es ih => exact ih (h.edit e)

/-- A sound slot, flushed, reads back clean; the flush stays inside the slot, and the free chain
reads the slot's link. -/
theorem Sound.reads_back (h : b.Sound l d s id) (hs : s < d.stores.size) (hcap : chunkHeader ≤ l.capacity) :
    ChunkSlot.load (b.flush d s).2 s l id = b.clean ∧ Disk.Within d (b.flush d s).2 (l.InSlot s id) ∧
      (LinkSlot.load (b.flush d s).2 s l id).next.value = b.next.value := by
  have hload := load_of_clean (h.flush hs) hcap
  refine ⟨hload, within_flush h.toShaped h.payload_fits hcap d s, ?_⟩
  rw [LinkSlot.next_load_eq_chunk _ s l id hcap, hload, next_value_clean]

/-- A slot made anew, or read from its place, is sound over the store it belongs to. -/
theorem sound_of_start (hcap : chunkHeader ≤ l.capacity) {b₀ : ChunkSlot}
    (hb₀ : (∃ bs, ChunkSlot.create l id bs = .ok b₀) ∨ b₀ = ChunkSlot.load d s l id) : b₀.Sound l d s id := by
  rcases hb₀ with ⟨bs, hc⟩ | rfl
  · exact sound_of_create hc d s
  · exact Sound.load d s l id hcap

end ChunkSlot

/-! ## Node slots -/

namespace NodeSlot

/-- A setter call on a cached node slot. -/
inductive Edit where
  | setParent (v : Nat)
  | setLeft (v : Nat)
  | setRight (v : Nat)
  | setDepths (left right : Nat)
  | setData (bs : List UInt8)
deriving DecidableEq, Repr

/-- Applies a setter call; a payload too long for the slot is refused, and the slot stays as it
was. -/
def edit (b : NodeSlot) : Edit → NodeSlot
  | .setParent v => b.setParent v
  | .setLeft v => b.setLeft v
  | .setRight v => b.setRight v
  | .setDepths x y => b.setDepths x y
  | .setData bs =>
    match b.setData bs with
    | .ok b' => b'
    | .error _ => b

/-- Setter calls, one after another. -/
def editAll (b : NodeSlot) (es : List Edit) : NodeSlot := es.foldl edit b

variable {l : Layout} {d : Disk} {s id : Nat} {b b' : NodeSlot}

/-- Setting the payload keeps a slot sound, whatever the payload's length. -/
theorem Sound.of_setData (h : b.Sound l d s id) {bs : List UInt8} (hset : b.setData bs = .ok b') :
    b'.Sound l d s id := by
  unfold NodeSlot.setData at hset
  cases hw : b.payload.update bs with
  | error e => simp [hw, bind, Except.bind] at hset
  | ok w =>
    simp only [hw, bind, Except.bind, pure, Except.pure, Except.ok.injEq] at hset
    subst hset
    obtain ⟨hoff, hcap, hfits, htrue, -⟩ := Window.update_ok hw
    exact { h with
      toShaped := { h.toShaped with
        len_offset := by rw [Cell.offset_set]; exact h.len_offset
        len_width := by rw [Cell.width_set]; exact h.len_width
        payload_offset := hoff.trans h.payload_offset
        payload_capacity := hcap.trans h.payload_capacity }
      len_fits := Cell.fits_set _ _
      payload_fits := hfits h.payload_fits
      len_trueTo := h.len_trueTo.set _
      payload_trueTo := htrue d s h.payload_trueTo }

/-- The slot `create` starts from, every field dirty, is sound over any store. -/
theorem Sound.fresh (l : Layout) (id : Nat) (d : Disk) (s : Nat) :
    NodeSlot.Sound l d s id ⟨id, Cell.create (l.offset id) 8 0, Cell.create (l.offset id + 8) 8 0,
      Cell.create (l.offset id + 16) 1 0, Cell.create (l.offset id + 17) 8 0, Cell.create (l.offset id + 25) 1 0,
      Cell.create (l.offset id + 26) 4 0, Window.create (l.offset id + nodeHeader) (payloadCapacity l)⟩ where
  toShaped := ⟨rfl, rfl, rfl, rfl, rfl, rfl, rfl, rfl, rfl, rfl, rfl, rfl, rfl, rfl, rfl⟩
  parent_fits := Cell.fits_create _ _ _
  left_fits := Cell.fits_create _ _ _
  leftDepth_fits := Cell.fits_create _ _ _
  right_fits := Cell.fits_create _ _ _
  rightDepth_fits := Cell.fits_create _ _ _
  len_fits := Cell.fits_create _ _ _
  payload_fits := Window.fits_create _ _
  parent_trueTo := fun h => by cases h
  left_trueTo := fun h => by cases h
  leftDepth_trueTo := fun h => by cases h
  right_trueTo := fun h => by cases h
  rightDepth_trueTo := fun h => by cases h
  len_trueTo := fun h => by cases h
  payload_trueTo := fun h => by cases h

theorem Sound.edit (h : b.Sound l d s id) : ∀ e, (b.edit e).Sound l d s id
  | .setParent v => h.setParent v
  | .setLeft v => h.setLeft v
  | .setRight v => h.setRight v
  | .setDepths x y => h.setDepths x y
  | .setData bs => by
    dsimp only [NodeSlot.edit]
    split
    · next b' hb' => exact h.of_setData hb'
    · exact h

/-- A run of setter calls keeps a slot sound over the store it came from. -/
theorem Sound.editAll (h : b.Sound l d s id) (es : List Edit) : (b.editAll es).Sound l d s id := by
  induction es generalizing b with
  | nil => exact h
  | cons e es ih => exact ih (h.edit e)

/-- A sound slot, flushed, reads back clean; the flush stays inside the slot, and the free chain
reads the slot's parent as its link. -/
theorem Sound.reads_back (h : b.Sound l d s id) (hs : s < d.stores.size) (hcap : nodeHeader ≤ l.capacity) :
    NodeSlot.load (b.flush d s).2 s l id = b.clean ∧ Disk.Within d (b.flush d s).2 (l.InSlot s id) ∧
      (LinkSlot.load (b.flush d s).2 s l id).next.value = b.parent.value := by
  have hload := load_of_clean (h.flush hs) hcap
  refine ⟨hload, within_flush h.toShaped h.payload_fits hcap d s, ?_⟩
  rw [LinkSlot.next_load_eq_node _ s l id hcap, hload]
  rfl

/-- A slot made anew, or read from its place, is sound over the store it belongs to. -/
theorem sound_of_start (hcap : nodeHeader ≤ l.capacity) {b₀ : NodeSlot}
    (hb₀ : (∃ bs, NodeSlot.create l id bs = .ok b₀) ∨ b₀ = NodeSlot.load d s l id) : b₀.Sound l d s id := by
  rcases hb₀ with ⟨bs, hc⟩ | rfl
  · exact (Sound.fresh l id d s).of_setData hc
  · exact Sound.load d s l id hcap

end NodeSlot

/-! ## The round trip -/

/-- A chunk slot or a node slot, made anew with a payload or read from its place and then changed
by any setter calls, reads back as itself once flushed to its store: loading the slot gives it
again with every field clean (the same links, heights, length and payload bytes, so the same
data), the flush writes nowhere outside the slot, and the free chain's view of the slot reads its
first field, the chunk's link or the node's parent. -/
theorem flushed_slots_read_back {l : Layout} {d : Disk} {s id : Nat} (hs : s < d.stores.size) :
    (chunkHeader ≤ l.capacity → ∀ (b₀ : ChunkSlot) (es : List ChunkSlot.Edit),
      ((∃ bs, ChunkSlot.create l id bs = .ok b₀) ∨ b₀ = ChunkSlot.load d s l id) →
      ChunkSlot.load ((b₀.editAll es).flush d s).2 s l id = (b₀.editAll es).clean ∧
        Disk.Within d ((b₀.editAll es).flush d s).2 (l.InSlot s id) ∧
        (LinkSlot.load ((b₀.editAll es).flush d s).2 s l id).next.value = (b₀.editAll es).next.value) ∧
    (nodeHeader ≤ l.capacity → ∀ (b₀ : NodeSlot) (es : List NodeSlot.Edit),
      ((∃ bs, NodeSlot.create l id bs = .ok b₀) ∨ b₀ = NodeSlot.load d s l id) →
      NodeSlot.load ((b₀.editAll es).flush d s).2 s l id = (b₀.editAll es).clean ∧
        Disk.Within d ((b₀.editAll es).flush d s).2 (l.InSlot s id) ∧
        (LinkSlot.load ((b₀.editAll es).flush d s).2 s l id).next.value = (b₀.editAll es).parent.value) :=
  ⟨fun hcap _ es hb₀ => ((ChunkSlot.sound_of_start hcap hb₀).editAll es).reads_back hs hcap,
    fun hcap _ es hb₀ => ((NodeSlot.sound_of_start hcap hb₀).editAll es).reads_back hs hcap⟩

/-- Both slots of a fresh store at slot 4 of a layout with a 20-byte header and 38-byte slots, read
from the empty store and set as a program sets them, read back with the values set. -/
theorem flushed_slots_read_back_on_empty_store :
    let d : Disk := { stores := #[ByteArray.empty] }
    let l : Layout := ⟨20, 38⟩
    let b := (ChunkSlot.load d 0 l 4).editAll [.setData [97, 98, 99], .setNext 5]
    let n := (NodeSlot.load d 0 l 4).editAll [.setParent 1, .setLeft 2, .setRight 3, .setDepths 2 1,
      .setData [7, 0, 0, 0, 0, 0, 0, 0]]
    0 < d.stores.size ∧ chunkHeader ≤ l.capacity ∧ nodeHeader ≤ l.capacity ∧
      ChunkSlot.load (b.flush d 0).2 0 l 4 = b.clean ∧ b.clean.data = [97, 98, 99] ∧
      (LinkSlot.load (b.flush d 0).2 0 l 4).next.value = 5 ∧
      NodeSlot.load (n.flush d 0).2 0 l 4 = n.clean ∧ n.clean.data = [7, 0, 0, 0, 0, 0, 0, 0] ∧
      (LinkSlot.load (n.flush d 0).2 0 l 4).next.value = 1 := by
  intro d l b n
  have hs : 0 < d.stores.size := by decide
  have hb := (@flushed_slots_read_back l d 0 4 hs).1 (by decide) _ [.setData [97, 98, 99], .setNext 5] (.inr rfl)
  have hn := (@flushed_slots_read_back l d 0 4 hs).2 (by decide) _ [.setParent 1, .setLeft 2, .setRight 3,
    .setDepths 2 1, .setData [7, 0, 0, 0, 0, 0, 0, 0]] (.inr rfl)
  exact ⟨hs, by decide, by decide, hb.1, by decide, hb.2.2.trans (by decide), hn.1, by decide,
    hn.2.2.trans (by decide)⟩

end ColumnDb.Slot
