import Mathlib
import ColumnDb.Proofs.Disk

/-!
# Cells and windows against their store

A cell or a window held in memory is *true to* a store when it is dirty, or
holds exactly what its place in the store holds. Loading gives one that is
true; setting keeps it true, since a set that changes the number marks it
dirty; a write that misses its place keeps it true; and flushing makes the
place hold what the cell holds. These facts are all that later modules use
of dirty tracking: a flush writes back whatever the cache changed, so a
store read after a flush is read as the cache held it.
-/

namespace ColumnDb.Slot

open ColumnDb.Disk ColumnDb.Bytes

theorem readLE_lt (bs : List UInt8) : readLE bs < Nat.pow 256 bs.length := by
  induction bs with
  | nil => simp [readLE]
  | cons b bs ih =>
    rw [Nat.pow_eq] at ih ⊢
    have hb := b.toNat_lt
    simp only [readLE, List.length_cons, Nat.pow_succ]
    omega

/-- A number other than zero has a byte other than zero. -/
theorem exists_ne_zero_of_readLE_ne_zero : ∀ bs : List UInt8, readLE bs ≠ 0 →
    ∃ i, ∃ hi : i < bs.length, bs[i] ≠ 0 := by
  intro bs
  induction bs with
  | nil => simp [readLE]
  | cons b bs ih =>
    intro hne
    by_cases hb : b = 0
    · have : readLE bs ≠ 0 := by
        intro h0
        simp [readLE, hb, h0] at hne
      obtain ⟨i, hi, hne'⟩ := ih this
      exact ⟨i + 1, by simp; omega, by simpa using hne'⟩
    · exact ⟨0, by simp, by simpa using hb⟩

/-- A run of a store that reads as a number other than zero starts inside the store. -/
theorem lt_size_of_readLE_ne_zero {d : Disk} {s off len : Nat} (h : readLE (d.read s off len) ≠ 0) :
    off < d.size s := by
  obtain ⟨i, hi, hne⟩ := exists_ne_zero_of_readLE_ne_zero _ h
  rw [Disk.getElem_read] at hne
  have := Disk.lt_size_of_byte_ne_zero d s _ hne
  omega

/-- A list of exactly `n` bytes is its own padding to `n`. -/
theorem takePadded_of_length {n : Nat} {bs : List UInt8} (h : bs.length = n) : takePadded n bs = bs := by
  subst h
  simp [takePadded]

/-- A field sliced out of a read region reads as the field itself. -/
theorem takePadded_drop_read (d : Disk) (s base cap k w : Nat) (h : k + w ≤ cap) :
    takePadded w ((d.read s base cap).drop k) = d.read s (base + k) w := by
  have hlen : ((d.read s base cap).drop k).length ≥ w := by simp; omega
  unfold takePadded
  rw [Nat.sub_eq_zero_of_le hlen, List.replicate_zero, List.append_nil]
  apply List.ext_getElem (by simp; omega)
  intro i h₁ h₂
  simp only [List.getElem_take, List.getElem_drop, Disk.getElem_read]
  rw [Nat.add_assoc]

namespace Cell

/-- The number a cell's place holds in a store. -/
def stored (c : Cell) (d : Disk) (s : Nat) : Nat := readLE (d.read s c.offset c.width)

/-- A cell is true to a store when it is dirty or holds what its place holds. -/
def TrueTo (c : Cell) (d : Disk) (s : Nat) : Prop := c.dirty = false → c.stored d s = c.value

/-- The number fits the cell's width, as every number a cell is given does. -/
def Fits (c : Cell) : Prop := c.value < Nat.pow 256 c.width

@[simp] theorem offset_load (d : Disk) (s off w : Nat) : (Cell.load d s off w).offset = off := rfl
@[simp] theorem width_load (d : Disk) (s off w : Nat) : (Cell.load d s off w).width = w := rfl
@[simp] theorem dirty_load (d : Disk) (s off w : Nat) : (Cell.load d s off w).dirty = false := rfl

@[simp] theorem value_load (d : Disk) (s off w : Nat) :
    (Cell.load d s off w).value = readLE (d.read s off w) := by
  simp [load, ofBytes, takePadded_of_length (Disk.length_read d s off w)]

theorem trueTo_load (d : Disk) (s off w : Nat) : (Cell.load d s off w).TrueTo d s :=
  fun _ => by simp [stored]

theorem fits_load (d : Disk) (s off w : Nat) : (Cell.load d s off w).Fits := by
  have := readLE_lt (d.read s off w)
  simp only [Disk.length_read] at this
  simpa [Fits] using this

theorem fits_create (off w v : Nat) : (Cell.create off w v).Fits :=
  Nat.mod_lt _ (by rw [Nat.pow_eq]; positivity)

@[simp] theorem offset_set (c : Cell) (v : Nat) : (c.set v).offset = c.offset := by
  dsimp only [set]; split <;> rfl

@[simp] theorem width_set (c : Cell) (v : Nat) : (c.set v).width = c.width := by
  dsimp only [set]; split <;> rfl

/-- A set never cleans a cell. -/
theorem dirty_set (c : Cell) (v : Nat) (h : c.dirty = true) : (c.set v).dirty = true := by
  dsimp only [set]
  split
  · exact h
  · rfl

/-- A number that fits is set exactly. -/
theorem value_set (c : Cell) {v : Nat} (h : v < Nat.pow 256 c.width) : (c.set v).value = v := by
  dsimp only [set]
  simp only [Nat.mod_eq_of_lt h]
  split
  · next heq => exact (beq_iff_eq.mp heq).symm
  · rfl

theorem fits_set (c : Cell) (v : Nat) : (c.set v).Fits := by
  dsimp only [set, Fits]
  split
  · next heq =>
    rw [← beq_iff_eq.mp heq]
    exact Nat.mod_lt _ (by rw [Nat.pow_eq]; positivity)
  · exact Nat.mod_lt _ (by rw [Nat.pow_eq]; positivity)

/-- A set either leaves the cell as it was or marks it dirty, so it stays true to a store. -/
theorem TrueTo.set {c : Cell} {d : Disk} {s : Nat} (h : c.TrueTo d s) (v : Nat) :
    (c.set v).TrueTo d s := by
  dsimp only [Cell.set]
  split
  · exact h
  · intro hd
    cases hd

/-- A cell stays true to a store changed only away from its place. -/
theorem TrueTo.within {c : Cell} {d d' : Disk} {s : Nat} {R : Nat → Nat → Prop} (h : c.TrueTo d s)
    (hw : Disk.Confined d d' R) (hR : ∀ i, c.offset ≤ i → i < c.offset + c.width → ¬ R s i) :
    c.TrueTo d' s := by
  intro hd
  unfold stored
  rw [hw.read_eq s c.offset c.width hR]
  exact h hd

/-- A flushed cell is clean. -/
theorem flush_fst (c : Cell) (d : Disk) (s : Nat) : (c.flush d s).1 = { c with dirty := false } := by
  unfold flush
  split
  · rfl
  · next hd =>
    cases c
    simp_all

theorem flush_snd (c : Cell) (d : Disk) (s : Nat) :
    (c.flush d s).2 = if c.dirty then d.write s c.offset (writeLE c.width c.value) else d := by
  unfold flush
  split <;> simp_all

/-- Flushing writes at most the cell's own place. -/
theorem within_flush (c : Cell) (d : Disk) (s : Nat) :
    Disk.Within d (c.flush d s).2 fun t i => t = s ∧ c.offset ≤ i ∧ i < c.offset + c.width := by
  rw [flush_snd]
  split
  · simpa [writeLE_length] using Disk.within_write d s c.offset (writeLE c.width c.value)
  · exact Disk.Within.refl d _

/-- After a flush the cell's place holds the cell's number. -/
theorem stored_flush {c : Cell} {d : Disk} {s : Nat} (hs : s < d.stores.size) (hf : c.Fits)
    (ht : c.TrueTo d s) : c.stored (c.flush d s).2 s = c.value := by
  rw [flush_snd]
  split
  · unfold stored
    have hread := Disk.read_write_self d s c.offset (writeLE c.width c.value) hs
    rw [writeLE_length] at hread
    rw [hread, readLE_writeLE, Nat.mod_eq_of_lt hf]
  · next hd => exact ht (by simpa using hd)

/-- Reading a cell's place back gives the cell, clean, once the place holds its number. -/
theorem load_of_stored {c : Cell} {d : Disk} {s : Nat} (h : c.stored d s = c.value) :
    Cell.load d s c.offset c.width = { c with dirty := false } := by
  cases c
  simp only [stored] at h
  simp only [load, ofBytes, takePadded_of_length (Disk.length_read _ _ _ _), h]

end Cell

namespace Window

/-- A window is true to a store when it is dirty or holds what its run holds. -/
def TrueTo (w : Window) (d : Disk) (s : Nat) : Prop := w.dirty = false → d.read s w.offset w.capacity = w.bytes

/-- A window holds exactly its capacity of bytes. -/
def Fits (w : Window) : Prop := w.bytes.length = w.capacity

@[simp] theorem offset_ofBytes (off cap : Nat) (bs : List UInt8) : (ofBytes off cap bs).offset = off := rfl
@[simp] theorem capacity_ofBytes (off cap : Nat) (bs : List UInt8) : (ofBytes off cap bs).capacity = cap := rfl
@[simp] theorem dirty_ofBytes (off cap : Nat) (bs : List UInt8) : (ofBytes off cap bs).dirty = false := rfl

theorem fits_ofBytes (off cap : Nat) (bs : List UInt8) : (ofBytes off cap bs).Fits := by
  simp only [Fits, ofBytes, takePadded, List.length_append, List.length_take, List.length_replicate]
  omega

theorem fits_create (off cap : Nat) : (create off cap).Fits := by simp [Fits, create]

/-- An update keeps the window's place and length and, when it changes the bytes, marks it
dirty. -/
theorem update_ok {w w' : Window} {bs : List UInt8} (h : w.update bs = .ok w') :
    w'.offset = w.offset ∧ w'.capacity = w.capacity ∧ (w.Fits → w'.Fits) ∧
      (∀ d s, w.TrueTo d s → w'.TrueTo d s) ∧ (w.Fits → w'.bytes.take bs.length = bs) := by
  unfold update at h
  split at h
  · cases h
  · next hlen =>
    split at h
    · next heq =>
      cases h
      exact ⟨rfl, rfl, id, fun _ _ ht => ht, fun _ => beq_iff_eq.mp heq⟩
    · cases h
      refine ⟨rfl, rfl, ?_, ?_, ?_⟩
      · intro hf
        simp only [Fits, List.length_append, List.length_drop] at hf ⊢
        omega
      · intro _ _ _ hd
        simp at hd
      · intro _
        simp

theorem flush_fst (w : Window) (d : Disk) (s : Nat) : (w.flush d s).1 = { w with dirty := false } := by
  unfold flush
  split
  · rfl
  · next hd =>
    cases w
    simp_all

theorem flush_snd (w : Window) (d : Disk) (s : Nat) :
    (w.flush d s).2 = if w.dirty then d.write s w.offset w.bytes else d := by
  unfold flush
  split <;> rfl

/-- Flushing writes at most the window's own run. -/
theorem within_flush (w : Window) (d : Disk) (s : Nat) (hf : w.Fits) :
    Disk.Within d (w.flush d s).2 fun t i => t = s ∧ w.offset ≤ i ∧ i < w.offset + w.capacity := by
  unfold flush
  split
  · have h := Disk.within_write d s w.offset w.bytes
    rw [show w.bytes.length = w.capacity from hf] at h
    exact h
  · exact Disk.Within.refl d _

/-- After a flush the window's run holds the window's bytes. -/
theorem read_flush {w : Window} {d : Disk} {s : Nat} (hs : s < d.stores.size) (hf : w.Fits)
    (ht : w.TrueTo d s) : (w.flush d s).2.read s w.offset w.capacity = w.bytes := by
  unfold flush
  split
  · rw [← show w.bytes.length = w.capacity from hf]
    exact Disk.read_write_self d s w.offset w.bytes hs
  · next hd => exact ht (by simpa using hd)

/-- A window stays true to a store changed only away from its run. -/
theorem TrueTo.within {w : Window} {d d' : Disk} {s : Nat} {R : Nat → Nat → Prop} (h : w.TrueTo d s)
    (hw : Disk.Confined d d' R) (hR : ∀ i, w.offset ≤ i → i < w.offset + w.capacity → ¬ R s i) :
    w.TrueTo d' s := by
  intro hd
  rw [hw.read_eq s w.offset w.capacity hR]
  exact h hd

end Window

end ColumnDb.Slot
