import Mathlib
import ColumnDb.Proofs.TreeFlush
import ColumnDb.Proofs.BlobChain

/-!
# Chunk slots written back

A chunk slot is a link, a length and a payload. Data files keep one per row and blob files chain
them; a slot read into a cache, or made there, is written back by the next flush. This module says
what a flush needs of such a slot and what it gives, as `ColumnDb.Proofs.TreeFlush` does for node
slots.

`ChunkSlot.Sound l d s id b` says that `b` sits at slot `id` of the layout `l`, that its numbers
fit their widths, and that its clean fields hold what store `s` of `d` holds. Reading a slot,
making one, and setting its payload or its link keep it. A flush writes only inside the slot and
leaves it clean and sound over the new store (`Sound.flush`), and a clean sound slot is what the
store holds there (`load_of_clean`).
-/

set_option autoImplicit false

namespace ColumnDb.Slot

open ColumnDb.Disk

/-- A chunk slot of a layout's slot `id`: each field at its place in the slot and of its width. -/
structure ChunkSlot.Shaped (l : Layout) (id : Nat) (b : ChunkSlot) : Prop where
  id_eq : b.id = id
  next_offset : b.next.offset = l.offset id
  next_width : b.next.width = 8
  len_offset : b.len.offset = l.offset id + 8
  len_width : b.len.width = 4
  payload_offset : b.payload.offset = l.offset id + chunkHeader
  payload_capacity : b.payload.capacity = ChunkSlot.payloadCapacity l

/-- A chunk slot that sits in slot `id`, whose numbers fit their widths and whose clean fields
hold what store `s` of `d` holds: what a flush needs of a cached slot. -/
structure ChunkSlot.Sound (l : Layout) (d : Disk) (s id : Nat) (b : ChunkSlot) : Prop
    extends b.Shaped l id where
  next_fits : b.next.Fits
  len_fits : b.len.Fits
  payload_fits : b.payload.Fits
  next_trueTo : b.next.TrueTo d s
  len_trueTo : b.len.TrueTo d s
  payload_trueTo : b.payload.TrueTo d s

namespace ChunkSlot

variable {l : Layout} {d : Disk} {s id : Nat} {b b' : ChunkSlot}

/-- The payload of a slot read from a store is the run of the store behind the header. -/
theorem payload_load (d : Disk) (s : Nat) (l : Layout) (id : Nat) :
    (ChunkSlot.load d s l id).payload.bytes = d.read s (l.offset id + chunkHeader) (payloadCapacity l) := by
  show takePadded _ ((d.read s (l.offset id) l.capacity).drop chunkHeader) = _
  by_cases h : chunkHeader ≤ l.capacity
  · exact takePadded_drop_read d s _ _ _ _ (by unfold payloadCapacity; omega)
  · have h0 : payloadCapacity l = 0 := by unfold payloadCapacity; omega
    rw [h0]
    simp [takePadded, Disk.read]

/-- A slot read from a store is sound, when the slot holds at least the chunk header. -/
theorem Sound.load (d : Disk) (s : Nat) (l : Layout) (id : Nat) (hcap : chunkHeader ≤ l.capacity) :
    (ChunkSlot.load d s l id).Sound l d s id where
  id_eq := rfl
  next_offset := rfl
  next_width := rfl
  len_offset := rfl
  len_width := rfl
  payload_offset := rfl
  payload_capacity := rfl
  next_fits := Cell.fits_ofBytes _ _ _
  len_fits := Cell.fits_ofBytes _ _ _
  payload_fits := Window.fits_ofBytes _ _ _
  next_trueTo := Cell.trueTo_ofBytes_drop d s _ _ 0 8 (by unfold chunkHeader at hcap; omega)
  len_trueTo := Cell.trueTo_ofBytes_drop d s _ _ 8 4 (by unfold chunkHeader at hcap; omega)
  payload_trueTo := fun _ => (payload_load d s l id).symm

theorem Sound.sized (h : b.Sound l d s id) : b.Sized (payloadCapacity l) :=
  ⟨h.next_width, h.len_width, h.payload_capacity, h.payload_fits⟩

theorem Sound.setNext (h : b.Sound l d s id) (v : Nat) : (b.setNext v).Sound l d s id :=
  { h with
    next_offset := by rw [ChunkSlot.setNext, Cell.offset_set]; exact h.next_offset
    next_width := by rw [ChunkSlot.setNext, Cell.width_set]; exact h.next_width
    next_fits := Cell.fits_set _ _
    next_trueTo := h.next_trueTo.set v }

/-- Setting the payload keeps a slot sound and its link. -/
theorem Sound.of_setData (h : b.Sound l d s id) {bs : List UInt8} (hset : b.setData bs = .ok b') :
    b'.Sound l d s id ∧ b'.next = b.next ∧ b'.id = b.id := by
  unfold ChunkSlot.setData at hset
  cases hw : b.payload.update bs with
  | error e => simp [hw, bind, Except.bind] at hset
  | ok w =>
    simp only [hw, bind, Except.bind, pure, Except.pure, Except.ok.injEq] at hset
    subst hset
    obtain ⟨hoff, hcap, hfits, htrue, -⟩ := Window.update_ok hw
    exact ⟨{ h with
      len_offset := by rw [Cell.offset_set]; exact h.len_offset
      len_width := by rw [Cell.width_set]; exact h.len_width
      payload_offset := hoff.trans h.payload_offset
      payload_capacity := hcap.trans h.payload_capacity
      len_fits := Cell.fits_set _ _
      payload_fits := hfits h.payload_fits
      len_trueTo := h.len_trueTo.set _
      payload_trueTo := htrue d s h.payload_trueTo }, rfl, rfl⟩

/-- Setting a payload that fits keeps a slot sound with its link, and the slot then holds the
payload. -/
theorem Sound.setData (h : b.Sound l d s id) {bs : List UInt8} (hlen : bs.length ≤ payloadCapacity l)
    (hlt : payloadCapacity l < Nat.pow 256 4) :
    ∃ b', b.setData bs = .ok b' ∧ b'.Sound l d s id ∧ b'.data = bs ∧ b'.next = b.next := by
  obtain ⟨b', hb', -, -, hdata⟩ := h.sized.setData hlt hlen
  obtain ⟨hs', hnext, -⟩ := h.of_setData hb'
  exact ⟨b', hb', hs', hdata, hnext⟩

/-- The slot `create` starts from, every field dirty, is sound over any store. -/
theorem Sound.fresh (l : Layout) (id : Nat) (d : Disk) (s : Nat) :
    ChunkSlot.Sound l d s id ⟨id, Cell.create (l.offset id) 8 0, Cell.create (l.offset id + 8) 4 0,
      Window.create (l.offset id + chunkHeader) (payloadCapacity l)⟩ where
  id_eq := rfl
  next_offset := rfl
  next_width := rfl
  len_offset := rfl
  len_width := rfl
  payload_offset := rfl
  payload_capacity := rfl
  next_fits := Cell.fits_create _ _ _
  len_fits := Cell.fits_create _ _ _
  payload_fits := Window.fits_create _ _
  next_trueTo := fun h => by cases h
  len_trueTo := fun h => by cases h
  payload_trueTo := fun h => by cases h

/-- A slot made anew is sound over any store. -/
theorem sound_of_create {bs : List UInt8} (hc : ChunkSlot.create l id bs = .ok b) (d : Disk) (s : Nat) :
    b.Sound l d s id :=
  ((Sound.fresh l id d s).of_setData hc).1

/-- A slot made for a payload that fits holds it, with no link. -/
theorem create_ok (l : Layout) (id : Nat) {bs : List UInt8} (hlen : bs.length ≤ payloadCapacity l)
    (hlt : payloadCapacity l < Nat.pow 256 4) :
    ∃ b, ChunkSlot.create l id bs = .ok b ∧ (∀ d s, b.Sound l d s id) ∧ b.data = bs ∧ b.next.value = 0 := by
  obtain ⟨b, hb, -, -, hdata⟩ := (Sound.fresh l id default 0).sized.setData hlt hlen
  obtain ⟨-, hnext, -⟩ := (Sound.fresh l id default 0).of_setData hb
  refine ⟨b, hb, sound_of_create hb, hdata, ?_⟩
  rw [hnext]
  simp [Cell.create]

/-! ## Writing a slot back -/

/-- The slot with every field clean: what a flush leaves of it. -/
def clean (b : ChunkSlot) : ChunkSlot :=
  { b with next := { b.next with dirty := false }, len := { b.len with dirty := false },
           payload := { b.payload with dirty := false } }

@[simp] theorem data_clean (b : ChunkSlot) : b.clean.data = b.data := rfl

@[simp] theorem id_clean (b : ChunkSlot) : b.clean.id = b.id := rfl

@[simp] theorem next_value_clean (b : ChunkSlot) : b.clean.next.value = b.next.value := rfl

theorem clean_load (d : Disk) (s : Nat) (l : Layout) (id : Nat) :
    (ChunkSlot.load d s l id).clean = ChunkSlot.load d s l id := rfl

theorem flush_fst (b : ChunkSlot) (d : Disk) (s : Nat) : (b.flush d s).1 = b.clean := by
  simp only [ChunkSlot.flush, Cell.flush_fst, Window.flush_fst, clean]

theorem flush_snd (b : ChunkSlot) (d : Disk) (s : Nat) :
    (b.flush d s).2 = (b.payload.flush (b.len.flush (b.next.flush d s).2 s).2 s).2 := rfl

/-- A slot stays sound on a store changed only outside it. -/
theorem Sound.within (h : b.Sound l d s id) {d' : Disk} {R : Nat → Nat → Prop} (hw : Disk.Confined d d' R)
    (hR : ∀ i, l.InSlot s id s i → ¬ R s i) (hcap : chunkHeader ≤ l.capacity) : b.Sound l d' s id := by
  have hslot : ∀ i, l.offset id ≤ i → i < l.offset id + l.capacity → ¬ R s i :=
    fun i h₁ h₂ => hR i ⟨rfl, h₁, h₂⟩
  have := h.next_offset; have := h.next_width; have := h.len_offset; have := h.len_width
  have := h.payload_offset; have := h.payload_capacity
  unfold payloadCapacity chunkHeader at *
  exact { h with
    next_trueTo := h.next_trueTo.within hw fun i h₁ h₂ => hslot i (by omega) (by omega)
    len_trueTo := h.len_trueTo.within hw fun i h₁ h₂ => hslot i (by omega) (by omega)
    payload_trueTo := h.payload_trueTo.within hw fun i h₁ h₂ => hslot i (by omega) (by omega) }

/-- A clean slot that is sound on a store is what the store holds in its slot. -/
theorem load_of_clean (h : b.clean.Sound l d s id) (hcap : chunkHeader ≤ l.capacity) :
    ChunkSlot.load d s l id = b.clean := by
  have hc := hcap
  unfold chunkHeader at hc
  have hcell : ∀ (c : Cell) (k : Nat), c.offset = l.offset id + k → k + c.width ≤ l.capacity →
      c.TrueTo d s → c.dirty = false →
      Cell.ofBytes (l.offset id + k) c.width ((d.read s (l.offset id) l.capacity).drop k) = c :=
    fun _ _ h₁ h₂ h₃ h₄ => Cell.ofBytes_drop_read h₁ h₂ h₃ h₄
  unfold ChunkSlot.load
  dsimp only
  congr 1
  · exact h.id_eq.symm
  · have := hcell _ 0 (by rw [h.next_offset, Nat.add_zero]) (by rw [h.next_width]; omega) h.next_trueTo rfl
    rw [h.next_width, Nat.add_zero, List.drop_zero] at this
    exact this
  · have := hcell _ 8 h.len_offset (by rw [h.len_width]; omega) h.len_trueTo rfl
    rw [h.len_width] at this
    exact this
  · have hk : chunkHeader + b.clean.payload.capacity ≤ l.capacity := by
      rw [h.payload_capacity]; unfold payloadCapacity chunkHeader; omega
    have := Window.ofBytes_drop_read h.payload_offset hk h.payload_trueTo rfl
    rw [h.payload_capacity] at this
    exact this

theorem grows_flush (b : ChunkSlot) (d : Disk) (s : Nat) : Disk.Grows d (b.flush d s).2 :=
  (Cell.grows_flush _ _ _).trans ((Cell.grows_flush _ _ _).trans (Window.grows_flush _ _ _))

/-- Flushing a slot writes only inside it. -/
theorem within_flush (h : b.Shaped l id) (hf : b.payload.Fits) (hcap : chunkHeader ≤ l.capacity) (d : Disk)
    (s : Nat) : Disk.Within d (b.flush d s).2 (l.InSlot s id) := by
  have := h.next_offset; have := h.next_width; have := h.len_offset; have := h.len_width
  have := h.payload_offset; have := h.payload_capacity
  unfold payloadCapacity chunkHeader at *
  rw [flush_snd]
  refine (((Cell.within_flush b.next d s).trans (Cell.within_flush b.len _ s)).trans
    (Window.within_flush b.payload _ s hf)).mono ?_
  rintro t i ((h | h) | h) <;> exact ⟨h.1, by omega, by omega⟩

/-- After a flush of a sound slot, the slot, clean, is sound on the new store: every field reads
back. -/
theorem Sound.flush (h : b.Sound l d s id) (hs : s < d.stores.size) :
    b.clean.Sound l (b.flush d s).2 s id := by
  have := h.next_offset; have := h.next_width; have := h.len_offset; have := h.len_width
  have := h.payload_offset; have := h.payload_capacity
  unfold payloadCapacity chunkHeader at *
  -- the three writes in slot order, each within its own field
  have w₁ := Cell.within_flush b.next d s
  have w₂ := Cell.within_flush b.len (b.next.flush d s).2 s
  have w₃ := Window.within_flush b.payload (b.len.flush (b.next.flush d s).2 s).2 s h.payload_fits
  have p₂ := w₁.mono fun t i (h : t = s ∧ _ ∧ _) => (⟨h.1, by omega⟩ : t = s ∧ i < b.len.offset)
  have p₃ := (p₂.trans w₂).mono fun t i h => (show t = s ∧ i < b.payload.offset by
    rcases h with h | h <;> exact ⟨h.1, by omega⟩)
  have q₂ := w₃.mono fun t i (h : t = s ∧ _ ∧ _) => (⟨h.1, by omega⟩ : t = s ∧ b.len.offset + b.len.width ≤ i)
  have q₁ := (w₂.trans q₂).mono fun t i h => (show t = s ∧ b.next.offset + b.next.width ≤ i by
    rcases h with h | h <;> exact ⟨h.1, by omega⟩)
  exact ⟨⟨h.id_eq, h.next_offset, h.next_width, h.len_offset, h.len_width, h.payload_offset,
    h.payload_capacity⟩, h.next_fits, h.len_fits, h.payload_fits,
    Cell.trueTo_flush_between hs h.next_fits h.next_trueTo (Disk.Within.refl d _) q₁,
    Cell.trueTo_flush_between hs h.len_fits h.len_trueTo p₂ q₂,
    Window.trueTo_flush_between hs h.payload_fits h.payload_trueTo p₃ (Disk.Within.refl _ _)⟩

/-- A slot changed only outside reads as before. -/
theorem load_within {d' : Disk} {R : Nat → Nat → Prop} (hw : Disk.Confined d d' R)
    (hR : ∀ i, l.InSlot s id s i → ¬ R s i) (hcap : chunkHeader ≤ l.capacity) :
    ChunkSlot.load d' s l id = ChunkSlot.load d s l id := by
  have h : (ChunkSlot.load d s l id).clean.Sound l d' s id := by
    rw [clean_load]
    exact (Sound.load d s l id hcap).within hw hR hcap
  rw [load_of_clean h hcap, clean_load]

/-- Whether a slot is sound looks only at the slot's bytes. -/
theorem reads_sound (b : ChunkSlot) (hcap : chunkHeader ≤ l.capacity) :
    Disk.Reads (l.InSlot s id) fun d => b.Sound l d s id :=
  fun _ _ hsize hbytes h => h.within ⟨hsize, fun u i hn => hbytes u i (not_not.mp hn)⟩ (fun _ hi hn => hn hi) hcap

end ChunkSlot

end ColumnDb.Slot
