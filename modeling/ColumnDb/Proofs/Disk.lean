import Mathlib
import ColumnDb.Slot.Window

/-!
# Reading back what was written

A store is read byte by byte: `Disk.byte` gives the byte at an index, zero
past the end, and every read of a run is that function mapped over the run.
One equation then says all a write does (`byte_write`): inside the written
run the new bytes, everywhere else the old ones. From it: reading the run
back gives the written bytes (`read_write_self`), and a run that does not
meet the written one reads as before (`read_write_of_disjoint`).

`Disk.Within d d' R` says that `d'` differs from `d` only at bytes `R`
names. Flushing a slot is such a change within the slot's bytes, and a
sequence of flushes is one within the union, which is how later modules
show that writing one slot leaves the others readable as they were.
-/


namespace ColumnDb.Disk

/-- The byte at an index of a byte array; zero past its end. -/
def byteAt (b : ByteArray) (i : Nat) : UInt8 := if h : i < b.size then b[i] else 0

theorem byteAt_set! (b : ByteArray) (j : Nat) (x : UInt8) (i : Nat) :
    byteAt (b.set! j x) i = if i = j ∧ j < b.size then x else byteAt b i := by
  unfold byteAt
  by_cases hi : i < b.size
  · have hi' : i < (b.set! j x).size := by simpa using hi
    rw [dif_pos hi', dif_pos hi]
    by_cases hij : i = j
    · subst hij
      simp [hi]
    · rw [ByteArray.getElem_set!_ne b j i x (Ne.symm hij) hi]
      simp [hij]
  · have hi' : ¬ i < (b.set! j x).size := by simpa using hi
    rw [dif_neg hi', dif_neg hi]
    split
    · next h => exact absurd (h.1 ▸ h.2) hi
    · rfl

/-- Storing bytes inside an array puts each at its index and keeps the rest. -/
theorem byteAt_setBytes (bs : List UInt8) :
    ∀ (b : ByteArray) (off : Nat), off + bs.length ≤ b.size → ∀ i,
      byteAt (setBytes b off bs) i =
        if off ≤ i ∧ i < off + bs.length then bs.getD (i - off) 0 else byteAt b i := by
  induction bs with
  | nil =>
    intro b off _ i
    simp only [setBytes, List.length_nil, Nat.add_zero]
    rw [if_neg (by omega)]
  | cons x xs ih =>
    intro b off hfit i
    simp only [List.length_cons] at hfit
    have hsize : off + 1 + xs.length ≤ (b.set! off x).size := by simp; omega
    rw [setBytes, ih (b.set! off x) (off + 1) hsize i, byteAt_set!]
    by_cases hlo : off + 1 ≤ i ∧ i < off + 1 + xs.length
    · have hsub : i - off = (i - (off + 1)) + 1 := by omega
      rw [if_pos hlo, if_pos (by simp only [List.length_cons]; omega), hsub]
      simp
    · rw [if_neg hlo]
      by_cases hio : i = off
      · subst hio
        rw [if_pos ⟨rfl, by omega⟩, if_pos (by simp)]
        simp
      · rw [if_neg (fun h => hio h.1)]
        rw [if_neg (by simp only [List.length_cons]; omega)]

theorem byteAt_append_zeros (b : ByteArray) (n i : Nat) :
    byteAt (b ++ ⟨Array.replicate n 0⟩) i = byteAt b i := by
  unfold byteAt
  by_cases hi : i < b.size
  · have hi' : i < (b ++ ⟨Array.replicate n 0⟩).size := by simp; omega
    rw [dif_pos hi', dif_pos hi, ByteArray.getElem_append_left hi]
  · rw [dif_neg hi]
    split
    · next h =>
      rw [ByteArray.getElem_append_right (by omega)]
      simp [ByteArray.getElem_eq_getElem_data]
    · rfl

/-- Writing into an array, growing it if needed, changes exactly the written run. -/
theorem byteAt_writeAt (b : ByteArray) (off : Nat) (bs : List UInt8) (i : Nat) :
    byteAt (writeAt b off bs) i =
      if off ≤ i ∧ i < off + bs.length then bs.getD (i - off) 0 else byteAt b i := by
  by_cases hlt : b.size < off + bs.length
  · have hsize : off + bs.length ≤ (b ++ ⟨Array.replicate (off + bs.length - b.size) 0⟩).size := by
      rw [ByteArray.size_append]
      change _ ≤ b.size + (Array.replicate (off + bs.length - b.size) (0 : UInt8)).size
      rw [Array.size_replicate]
      omega
    simp only [writeAt, if_pos hlt]
    rw [byteAt_setBytes bs _ off hsize, byteAt_append_zeros]
  · simp only [writeAt, if_neg hlt]
    rw [byteAt_setBytes bs _ off (by omega)]

/-- The byte at an index of a store; zero past its end or for an unknown store. -/
def byte (d : Disk) (s i : Nat) : UInt8 := byteAt (d.bytesOf s) i

/-- A read is the bytes of its run, one by one. -/
theorem read_eq_map (d : Disk) (s off len : Nat) :
    d.read s off len = (List.range len).map fun i => d.byte s (off + i) := rfl

@[simp] theorem length_read (d : Disk) (s off len : Nat) : (d.read s off len).length = len := by
  simp [read_eq_map]

theorem getElem_read (d : Disk) (s off len i : Nat) (h : i < (d.read s off len).length) :
    (d.read s off len)[i] = d.byte s (off + i) := by
  simp [read_eq_map]

@[simp] theorem stores_size_write (d : Disk) (s off : Nat) (bs : List UInt8) :
    (d.write s off bs).stores.size = d.stores.size := by
  unfold write
  split
  · simp
  · rfl

theorem bytesOf_write (d : Disk) (s off : Nat) (bs : List UInt8) (t : Nat) :
    (d.write s off bs).bytesOf t =
      if t = s ∧ s < d.stores.size then writeAt (d.bytesOf s) off bs else d.bytesOf t := by
  unfold write
  split
  · next hs =>
    unfold bytesOf
    simp only [Array.getD_eq_getD_getElem?, Array.getElem?_modify]
    by_cases ht : t = s
    · subst ht
      simp [hs]
    · simp [ht, Ne.symm ht]
  · next hs =>
    simp only [hs, and_false, if_false]

/-- What a write does to every byte of the disk. -/
theorem byte_write (d : Disk) (s off : Nat) (bs : List UInt8) (t i : Nat) :
    (d.write s off bs).byte t i =
      if t = s ∧ s < d.stores.size ∧ off ≤ i ∧ i < off + bs.length then bs.getD (i - off) 0
      else d.byte t i := by
  unfold byte
  rw [bytesOf_write]
  by_cases hts : t = s ∧ s < d.stores.size
  · obtain ⟨rfl, hs⟩ := hts
    rw [if_pos ⟨rfl, hs⟩, byteAt_writeAt]
    simp [hs]
  · rw [if_neg hts, if_neg (fun h => hts ⟨h.1, h.2.1⟩)]

/-- The written run reads back as written, on a store the disk has. -/
theorem read_write_self (d : Disk) (s off : Nat) (bs : List UInt8) (hs : s < d.stores.size) :
    (d.write s off bs).read s off bs.length = bs := by
  apply List.ext_getElem (by simp)
  intro i hi _
  rw [getElem_read, byte_write, if_pos ⟨rfl, hs, by omega, by simp at hi; omega⟩]
  simp only [Nat.add_sub_cancel_left]
  simp at hi
  simp [hi]

/-- A run that does not meet the written one reads as before. -/
theorem read_write_of_disjoint (d : Disk) (s off : Nat) (bs : List UInt8) (t off' len : Nat)
    (hd : t ≠ s ∨ off' + len ≤ off ∨ off + bs.length ≤ off') :
    (d.write s off bs).read t off' len = d.read t off' len := by
  simp only [read_eq_map]
  apply List.map_congr_left
  intro i hi
  simp only [List.mem_range] at hi
  rw [byte_write, if_neg]
  omega

/-! ## Changes confined to a set of bytes -/

/-- `d'` differs from `d` only at bytes `R` names, and has the same stores. -/
def Within (d d' : Disk) (R : Nat → Nat → Prop) : Prop :=
  d'.stores.size = d.stores.size ∧ ∀ t i, ¬ R t i → d'.byte t i = d.byte t i

theorem Within.refl (d : Disk) (R : Nat → Nat → Prop) : Within d d R := ⟨rfl, fun _ _ _ => rfl⟩

theorem Within.trans {d₁ d₂ d₃ : Disk} {R S : Nat → Nat → Prop} (h₁ : Within d₁ d₂ R)
    (h₂ : Within d₂ d₃ S) : Within d₁ d₃ fun t i => R t i ∨ S t i :=
  ⟨h₂.1.trans h₁.1, fun t i h => (h₂.2 t i fun hs => h (.inr hs)).trans (h₁.2 t i fun hr => h (.inl hr))⟩

theorem Within.mono {d d' : Disk} {R S : Nat → Nat → Prop} (h : Within d d' R)
    (hRS : ∀ t i, R t i → S t i) : Within d d' S :=
  ⟨h.1, fun t i hs => h.2 t i fun hr => hs (hRS t i hr)⟩

theorem within_write (d : Disk) (s off : Nat) (bs : List UInt8) :
    Within d (d.write s off bs) fun t i => t = s ∧ off ≤ i ∧ i < off + bs.length := by
  refine ⟨stores_size_write d s off bs, fun t i h => ?_⟩
  rw [byte_write, if_neg]
  exact fun h' => h ⟨h'.1, h'.2.2⟩

/-- `d'` keeps the stores of `d`, perhaps with new ones after them, and differs from it only at
bytes `R` names. This is what a file's invariant needs of a change it survives: a change within
the same stores, or new stores made beside them. -/
def Confined (d d' : Disk) (R : Nat → Nat → Prop) : Prop :=
  d.stores.size ≤ d'.stores.size ∧ ∀ t i, ¬ R t i → d'.byte t i = d.byte t i

theorem Within.confined {d d' : Disk} {R : Nat → Nat → Prop} (h : Within d d' R) : Confined d d' R :=
  ⟨h.1.ge, h.2⟩

/-- A run untouched by a confined change reads as before. -/
theorem Confined.read_eq {d d' : Disk} {R : Nat → Nat → Prop} (h : Confined d d' R) (t off len : Nat)
    (hout : ∀ i, off ≤ i → i < off + len → ¬ R t i) : d'.read t off len = d.read t off len := by
  simp only [read_eq_map]
  apply List.map_congr_left
  intro i hi
  simp only [List.mem_range] at hi
  exact h.2 t (off + i) (hout _ (by omega) (by omega))

/-- A property of a disk that looks only at the bytes `R` names, and holds on as new stores are
made. -/
def Reads (R : Nat → Nat → Prop) (P : Disk → Prop) : Prop :=
  ∀ d d', d.stores.size ≤ d'.stores.size → (∀ t i, R t i → d'.byte t i = d.byte t i) → P d → P d'

theorem Reads.confined {R S : Nat → Nat → Prop} {P : Disk → Prop} (hP : Reads R P) {d d' : Disk}
    (hw : Confined d d' S) (hRS : ∀ t i, R t i → ¬ S t i) (h : P d) : P d' :=
  hP d d' hw.1 (fun t i hr => hw.2 t i (hRS t i hr)) h

/-- A sequence of writes, each confined to its own region, changes at most their union. -/
theorem within_foldl {α : Type} (f : Disk → α → Disk) (R : α → Nat → Nat → Prop) (L : List α)
    (hw : ∀ d x, x ∈ L → Within d (f d x) (R x)) (d : Disk) :
    Within d (L.foldl f d) fun t i => ∃ x ∈ L, R x t i := by
  induction L generalizing d with
  | nil => exact Within.refl d _
  | cons x xs ih =>
    have hxs := ih (fun d y hy => hw d y (List.mem_cons_of_mem x hy)) (f d x)
    refine ((hw d x List.mem_cons_self).trans hxs).mono ?_
    rintro t i (hx | ⟨y, hy, hr⟩)
    · exact ⟨x, List.mem_cons_self, hx⟩
    · exact ⟨y, List.mem_cons_of_mem x hy, hr⟩

/-- Flushing items one after another whose regions are pairwise disjoint: each item's flush
establishes its own `Post`, which no later flush disturbs. `Pre` is what an item needs of
the disk when its turn comes, and no earlier flush disturbs it either. -/
theorem foldl_flush {α : Type} (f : Disk → α → Disk) (R : α → Nat → Nat → Prop)
    (Pre Post : α → Disk → Prop) (L : List α)
    (hw : ∀ d x, x ∈ L → Within d (f d x) (R x))
    (hpost : ∀ d x, x ∈ L → Pre x d → Post x (f d x))
    (hpre : ∀ x ∈ L, Reads (R x) (Pre x)) (hkeep : ∀ x ∈ L, Reads (R x) (Post x))
    (hdisj : L.Pairwise fun x y => ∀ t i, R x t i → ¬ R y t i) :
    ∀ d, (∀ x ∈ L, Pre x d) → ∀ x ∈ L, Post x (L.foldl f d) := by
  induction L with
  | nil => intro _ _ x hx; cases hx
  | cons x xs ih =>
    intro d hall
    obtain ⟨hx, hxs⟩ := List.pairwise_cons.mp hdisj
    have hwx : Within d (f d x) (R x) := hw d x List.mem_cons_self
    -- the first flush leaves every later item's region alone
    have hrest : ∀ y ∈ xs, Pre y (f d x) := fun y hy =>
      (hpre y (List.mem_cons_of_mem x hy)).confined hwx.confined
        (fun t i hr hrx => hx y hy t i hrx hr) (hall y (List.mem_cons_of_mem x hy))
    have ih' := ih (fun d y hy => hw d y (List.mem_cons_of_mem x hy))
      (fun d y hy => hpost d y (List.mem_cons_of_mem x hy))
      (fun y hy => hpre y (List.mem_cons_of_mem x hy))
      (fun y hy => hkeep y (List.mem_cons_of_mem x hy)) hxs (f d x) hrest
    intro y hy
    rcases List.mem_cons.mp hy with rfl | hy
    · -- the later flushes write only their own regions, none of which meets this one
      have hlater := within_foldl f R xs (fun d z hz => hw d z (List.mem_cons_of_mem y hz)) (f d y)
      exact (hkeep y List.mem_cons_self).confined hlater.confined
        (fun t i hr ⟨z, hz, hrz⟩ => hx z hz t i hr hrz) (hpost d y List.mem_cons_self (hall y List.mem_cons_self))
    · exact ih' y hy

/-- A byte that is not zero lies inside its store. -/
theorem lt_size_of_byte_ne_zero (d : Disk) (s i : Nat) (h : d.byte s i ≠ 0) : i < d.size s := by
  unfold byte byteAt at h
  unfold size
  split at h
  · assumption
  · exact absurd rfl h

end ColumnDb.Disk
