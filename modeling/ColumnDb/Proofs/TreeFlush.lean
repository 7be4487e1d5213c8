import Mathlib
import ColumnDb.Proofs.TreeHeap
import ColumnDb.Tree.File

/-!
# Writing a tree file back

A flush writes the root cell, then every cached node slot, then the shared
file part (capacity and allocator), and empties the cache. Each node slot is
written only inside its own slot, and only its dirty fields; so once a slot
is written it reads back as the cached node with every field clean
(`NodeSlot.load_flush`), and no later write disturbs it, since slots lie
apart and the allocator writes only the links of free slots.

The main statement, `TreeFile.Sound.flush`, says what a flush of a sound,
open tree file does: it succeeds, the file stays sound on the new store, the
id pool is the same, every node the file held reads back with the same links
and value, and the store opens again as the flushed file.

Stores only grow (`Disk.Grows`): a node whose parent link was dirty is
written, so afterwards its slot begins inside the store.
-/

set_option autoImplicit false

namespace ColumnDb.Disk

/-! ## Stores only grow -/

theorem size_setBytes : ∀ (bs : List UInt8) (b : ByteArray) (off : Nat), (setBytes b off bs).size = b.size
  | [], _, _ => rfl
  | x :: xs, b, off => by
    rw [setBytes, size_setBytes xs]
    simp

theorem size_writeAt (b : ByteArray) (off : Nat) (bs : List UInt8) :
    (writeAt b off bs).size = max b.size (off + bs.length) := by
  unfold writeAt
  dsimp only
  rw [size_setBytes]
  split
  · rw [ByteArray.size_append]
    change b.size + (Array.replicate (off + bs.length - b.size) (0 : UInt8)).size = _
    rw [Array.size_replicate]
    omega
  · omega

theorem size_write (d : Disk) (s off : Nat) (bs : List UInt8) (t : Nat) :
    (d.write s off bs).size t =
      if t = s ∧ s < d.stores.size then max (d.size s) (off + bs.length) else d.size t := by
  unfold size
  rw [bytesOf_write]
  split
  · rw [size_writeAt]
  · rfl

/-- `d'` keeps every store of `d`, each at least as long. -/
def Grows (d d' : Disk) : Prop := d'.stores.size = d.stores.size ∧ ∀ t, d.size t ≤ d'.size t

theorem Grows.refl (d : Disk) : Grows d d := ⟨rfl, fun _ => le_refl _⟩

theorem Grows.trans {d₁ d₂ d₃ : Disk} (h₁ : Grows d₁ d₂) (h₂ : Grows d₂ d₃) : Grows d₁ d₃ :=
  ⟨h₂.1.trans h₁.1, fun t => le_trans (h₁.2 t) (h₂.2 t)⟩

theorem grows_write (d : Disk) (s off : Nat) (bs : List UInt8) : Grows d (d.write s off bs) := by
  refine ⟨stores_size_write d s off bs, fun t => ?_⟩
  rw [size_write]
  split
  · next h =>
    rw [h.1]
    exact le_max_left _ _
  · exact le_refl _

/-- A store written at an offset reaches past it. -/
theorem lt_size_write {d : Disk} {s off : Nat} {bs : List UInt8} (hs : s < d.stores.size) (hbs : bs ≠ []) :
    off < (d.write s off bs).size s := by
  rw [size_write, if_pos ⟨rfl, hs⟩]
  have := List.length_pos_iff.mpr hbs
  omega

/-- Steps that each let the stores grow, one after another. -/
theorem grows_foldl {α : Type} (f : Disk → α → Disk) (hf : ∀ d x, Grows d (f d x)) :
    ∀ (L : List α) (d : Disk), Grows d (L.foldl f d)
  | [], d => Grows.refl d
  | x :: xs, d => (hf d x).trans (grows_foldl f hf xs (f d x))

/-- In steps that let the stores grow, a step that reaches past an offset leaves the last store
reaching past it. -/
theorem lt_size_foldl {α : Type} (f : Disk → α → Disk) (hf : ∀ d x, Grows d (f d x)) {s : Nat}
    (off : α → Nat) (P : α → Prop) (hP : ∀ d x, P x → s < d.stores.size → off x < (f d x).size s) :
    ∀ (L : List α) (d : Disk), s < d.stores.size → ∀ x ∈ L, P x → off x < (L.foldl f d).size s
  | [], _, _, _, hx, _ => absurd hx List.not_mem_nil
  | y :: ys, d, hs, x, hx, hpx => by
    rcases List.mem_cons.mp hx with rfl | hx
    · exact lt_of_lt_of_le (hP d x hpx hs) ((grows_foldl f hf ys (f d x)).2 s)
    · exact lt_size_foldl f hf off P hP ys (f d y) ((hf d y).1 ▸ hs) x hx hpx

end ColumnDb.Disk

namespace ColumnDb.Slot

open ColumnDb.Disk ColumnDb.Bytes

theorem Cell.grows_flush (c : Cell) (d : Disk) (s : Nat) : Disk.Grows d (c.flush d s).2 := by
  rw [Cell.flush_snd]
  split
  · exact Disk.grows_write _ _ _ _
  · exact Disk.Grows.refl d

theorem Cell.lt_size_flush {c : Cell} {d : Disk} {s : Nat} (hd : c.dirty = true) (hw : 0 < c.width)
    (hs : s < d.stores.size) : c.offset < (c.flush d s).2.size s := by
  rw [Cell.flush_snd, if_pos hd]
  refine Disk.lt_size_write hs fun h => ?_
  have := writeLE_length c.width c.value
  rw [h, List.length_nil] at this
  omega

theorem Window.grows_flush (w : Window) (d : Disk) (s : Nat) : Disk.Grows d (w.flush d s).2 := by
  unfold Window.flush
  split
  · exact Disk.grows_write _ _ _ _
  · exact Disk.Grows.refl d

theorem LinkSlot.grows_flush (b : LinkSlot) (d : Disk) (s : Nat) : Disk.Grows d (b.flush d s).2 :=
  Cell.grows_flush b.next d s

theorem FreeChain.grows_flush (c : FreeChain) (d : Disk) (s : Nat) : Disk.Grows d (c.flush d s).2 := by
  rw [FreeChain.flush_snd]
  exact Disk.grows_foldl _ (fun d (b : Nat × LinkSlot) => LinkSlot.grows_flush b.2 d s) _ d

theorem Allocator.grows_flush (a : Allocator) (d : Disk) (s : Nat) : Disk.Grows d (a.flush d s).2 := by
  rw [Allocator.flush_snd]
  exact (Cell.grows_flush _ _ _).trans (FreeChain.grows_flush _ _ _)

theorem BlockFile.grows_flush (d : Disk) (f : BlockFile) :
    Disk.Grows d ((f.allocator.flush (f.capacity.flush d f.sid).2 f.sid).2) :=
  (Cell.grows_flush _ _ _).trans (Allocator.grows_flush _ _ _)

/-! ## Node slots written back -/

/-- The bytes of slot `id` in store `s`. -/
def Layout.InSlot (l : Layout) (s id : Nat) : Nat → Nat → Prop :=
  fun t i => t = s ∧ l.offset id ≤ i ∧ i < l.offset id + l.capacity

theorem Layout.inSlot_disjoint {l : Layout} {s a b : Nat} (hab : a ≠ b) :
    ∀ t i, l.InSlot s a t i → ¬ l.InSlot s b t i := by
  rintro t i ⟨-, ha₁, ha₂⟩ ⟨-, hb₁, hb₂⟩
  rcases Nat.lt_or_gt_of_ne hab with h | h
  · have := Layout.offset_add_le (l := l) h
    omega
  · have := Layout.offset_add_le (l := l) h
    omega

/-- A clean cell true to a store is what a read of its place within a longer run gives. -/
theorem Cell.ofBytes_drop_read {c : Cell} {d : Disk} {s base cap k : Nat} (hoff : c.offset = base + k)
    (hk : k + c.width ≤ cap) (ht : c.TrueTo d s) (hc : c.dirty = false) :
    Cell.ofBytes (base + k) c.width ((d.read s base cap).drop k) = c := by
  have hstored := ht hc
  unfold Cell.stored at hstored
  rw [hoff] at hstored
  cases c
  simp only at hoff hc hstored ⊢
  subst hoff hc
  simp only [Cell.ofBytes, takePadded_drop_read d s base cap k _ hk, hstored]

/-- A clean window true to a store is what a read of its run within a longer run gives. -/
theorem Window.ofBytes_drop_read {w : Window} {d : Disk} {s base cap k : Nat} (hoff : w.offset = base + k)
    (hk : k + w.capacity ≤ cap) (ht : w.TrueTo d s) (hc : w.dirty = false) :
    Window.ofBytes (base + k) w.capacity ((d.read s base cap).drop k) = w := by
  have hread := ht hc
  rw [hoff] at hread
  cases w
  simp only at hoff hc hread ⊢
  subst hoff hc
  simp only [Window.ofBytes, takePadded_drop_read d s base cap k _ hk, hread]

/-- A cell flushed between writes that stay before it and writes that stay after it holds its
number at the end. -/
theorem Cell.trueTo_flush_between {c : Cell} {d d₀ d₂ : Disk} {s : Nat} (hs : s < d.stores.size)
    (hf : c.Fits) (ht : c.TrueTo d s) (hpre : Disk.Within d d₀ fun t i => t = s ∧ i < c.offset)
    (hpost : Disk.Within (c.flush d₀ s).2 d₂ fun t i => t = s ∧ c.offset + c.width ≤ i) :
    ({ c with dirty := false } : Cell).TrueTo d₂ s := fun _ => by
  have ht₀ : c.TrueTo d₀ s := ht.within hpre.confined fun i h₁ _ ⟨_, hi⟩ => by omega
  have hstored := Cell.stored_flush (hpre.1 ▸ hs) hf ht₀
  unfold Cell.stored at hstored
  show Bytes.readLE (d₂.read s c.offset c.width) = c.value
  rw [hpost.confined.read_eq s c.offset c.width fun i _ h₂ ⟨_, hi⟩ => by omega]
  exact hstored

/-- The same for a window. -/
theorem Window.trueTo_flush_between {w : Window} {d d₀ d₂ : Disk} {s : Nat} (hs : s < d.stores.size)
    (hf : w.Fits) (ht : w.TrueTo d s) (hpre : Disk.Within d d₀ fun t i => t = s ∧ i < w.offset)
    (hpost : Disk.Within (w.flush d₀ s).2 d₂ fun t i => t = s ∧ w.offset + w.capacity ≤ i) :
    ({ w with dirty := false } : Window).TrueTo d₂ s := fun _ => by
  have ht₀ : w.TrueTo d₀ s := ht.within hpre.confined fun i h₁ _ ⟨_, hi⟩ => by omega
  have hread := Window.read_flush (hpre.1 ▸ hs) hf ht₀
  show d₂.read s w.offset w.capacity = w.bytes
  rw [hpost.confined.read_eq s w.offset w.capacity fun i _ h₂ ⟨_, hi⟩ => by omega]
  exact hread

namespace NodeSlot

/-- The slot with every field clean: what a flush leaves of it. -/
def clean (b : NodeSlot) : NodeSlot :=
  { b with parent := { b.parent with dirty := false }, left := { b.left with dirty := false },
           leftDepth := { b.leftDepth with dirty := false }, right := { b.right with dirty := false },
           rightDepth := { b.rightDepth with dirty := false }, len := { b.len with dirty := false },
           payload := { b.payload with dirty := false } }

@[simp] theorem data_clean (b : NodeSlot) : b.clean.data = b.data := rfl

theorem clean_load (d : Disk) (s : Nat) (l : Layout) (id : Nat) :
    (NodeSlot.load d s l id).clean = NodeSlot.load d s l id := rfl

theorem flush_fst (b : NodeSlot) (d : Disk) (s : Nat) : (b.flush d s).1 = b.clean := by
  simp only [NodeSlot.flush, Cell.flush_fst, Window.flush_fst, clean]

theorem flush_snd (b : NodeSlot) (d : Disk) (s : Nat) : (b.flush d s).2 =
    (b.payload.flush (b.len.flush (b.rightDepth.flush (b.right.flush (b.leftDepth.flush
      (b.left.flush (b.parent.flush d s).2 s).2 s).2 s).2 s).2 s).2 s).2 := rfl

variable {l : Layout} {d : Disk} {s id : Nat} {b : NodeSlot}

/-- A slot stays sound on a store changed only outside it. -/
theorem Sound.within (h : b.Sound l d s id) {d' : Disk} {R : Nat → Nat → Prop} (hw : Disk.Confined d d' R)
    (hR : ∀ i, l.InSlot s id s i → ¬ R s i) (hcap : nodeHeader ≤ l.capacity) : b.Sound l d' s id := by
  have hslot : ∀ i, l.offset id ≤ i → i < l.offset id + l.capacity → ¬ R s i :=
    fun i h₁ h₂ => hR i ⟨rfl, h₁, h₂⟩
  have := h.parent_offset; have := h.parent_width; have := h.left_offset; have := h.left_width
  have := h.leftDepth_offset; have := h.leftDepth_width; have := h.right_offset
  have := h.right_width; have := h.rightDepth_offset; have := h.rightDepth_width
  have := h.len_offset; have := h.len_width; have := h.payload_offset; have := h.payload_capacity
  unfold payloadCapacity nodeHeader at *
  exact { h with
    parent_trueTo := h.parent_trueTo.within hw fun i h₁ h₂ => hslot i (by omega) (by omega)
    left_trueTo := h.left_trueTo.within hw fun i h₁ h₂ => hslot i (by omega) (by omega)
    leftDepth_trueTo := h.leftDepth_trueTo.within hw fun i h₁ h₂ => hslot i (by omega) (by omega)
    right_trueTo := h.right_trueTo.within hw fun i h₁ h₂ => hslot i (by omega) (by omega)
    rightDepth_trueTo := h.rightDepth_trueTo.within hw fun i h₁ h₂ => hslot i (by omega) (by omega)
    len_trueTo := h.len_trueTo.within hw fun i h₁ h₂ => hslot i (by omega) (by omega)
    payload_trueTo := h.payload_trueTo.within hw fun i h₁ h₂ => hslot i (by omega) (by omega) }

/-- A clean slot that is sound on a store is what the store holds in its slot. -/
theorem load_of_clean (h : b.clean.Sound l d s id) (hcap : nodeHeader ≤ l.capacity) :
    NodeSlot.load d s l id = b.clean := by
  have hc := hcap
  unfold nodeHeader at hc
  have hcell : ∀ (c : Cell) (k : Nat), c.offset = l.offset id + k → k + c.width ≤ l.capacity →
      c.TrueTo d s → c.dirty = false →
      Cell.ofBytes (l.offset id + k) c.width ((d.read s (l.offset id) l.capacity).drop k) = c :=
    fun _ _ h₁ h₂ h₃ h₄ => Cell.ofBytes_drop_read h₁ h₂ h₃ h₄
  unfold NodeSlot.load
  dsimp only
  congr 1
  · exact h.id_eq.symm
  · have := hcell _ 0 (by rw [h.parent_offset, Nat.add_zero]) (by rw [h.parent_width]; omega) h.parent_trueTo rfl
    rw [h.parent_width, Nat.add_zero, List.drop_zero] at this
    exact this
  · have := hcell _ 8 h.left_offset (by rw [h.left_width]; omega) h.left_trueTo rfl
    rw [h.left_width] at this
    exact this
  · have := hcell _ 16 h.leftDepth_offset (by rw [h.leftDepth_width]; omega) h.leftDepth_trueTo rfl
    rw [h.leftDepth_width] at this
    exact this
  · have := hcell _ 17 h.right_offset (by rw [h.right_width]; omega) h.right_trueTo rfl
    rw [h.right_width] at this
    exact this
  · have := hcell _ 25 h.rightDepth_offset (by rw [h.rightDepth_width]; omega) h.rightDepth_trueTo rfl
    rw [h.rightDepth_width] at this
    exact this
  · have := hcell _ 26 h.len_offset (by rw [h.len_width]; omega) h.len_trueTo rfl
    rw [h.len_width] at this
    exact this
  · have hk : nodeHeader + b.clean.payload.capacity ≤ l.capacity := by
      rw [h.payload_capacity]; unfold NodeSlot.payloadCapacity nodeHeader; omega
    have := Window.ofBytes_drop_read h.payload_offset hk h.payload_trueTo rfl
    rw [h.payload_capacity] at this
    exact this

theorem grows_flush (b : NodeSlot) (d : Disk) (s : Nat) : Disk.Grows d (b.flush d s).2 :=
  (Cell.grows_flush _ _ _).trans ((Cell.grows_flush _ _ _).trans ((Cell.grows_flush _ _ _).trans
    ((Cell.grows_flush _ _ _).trans ((Cell.grows_flush _ _ _).trans ((Cell.grows_flush _ _ _).trans
      (Window.grows_flush _ _ _))))))

/-- A dirty parent link is written first, so after a flush the slot begins inside the store. -/
theorem lt_size_flush (h : b.Shaped l id) (hd : b.parent.dirty = true) (hs : s < d.stores.size) :
    l.offset id < (b.flush d s).2.size s := by
  have hlt := Cell.lt_size_flush hd (by rw [h.parent_width]; omega) hs
  rw [h.parent_offset] at hlt
  exact lt_of_lt_of_le hlt (((Cell.grows_flush _ _ _).trans ((Cell.grows_flush _ _ _).trans
    ((Cell.grows_flush _ _ _).trans ((Cell.grows_flush _ _ _).trans ((Cell.grows_flush _ _ _).trans
      (Window.grows_flush _ _ _)))))).2 s)

/-- Flushing a slot writes only inside it. -/
theorem within_flush (h : b.Shaped l id) (hf : b.payload.Fits) (hcap : nodeHeader ≤ l.capacity) (d : Disk)
    (s : Nat) : Disk.Within d (b.flush d s).2 (l.InSlot s id) := by
  have := h.parent_offset; have := h.parent_width; have := h.left_offset; have := h.left_width
  have := h.leftDepth_offset; have := h.leftDepth_width; have := h.right_offset
  have := h.right_width; have := h.rightDepth_offset; have := h.rightDepth_width
  have := h.len_offset; have := h.len_width; have := h.payload_offset; have := h.payload_capacity
  unfold payloadCapacity nodeHeader at *
  rw [flush_snd]
  refine (((((((Cell.within_flush b.parent d s).trans (Cell.within_flush b.left _ s)).trans
    (Cell.within_flush b.leftDepth _ s)).trans (Cell.within_flush b.right _ s)).trans
    (Cell.within_flush b.rightDepth _ s)).trans (Cell.within_flush b.len _ s)).trans
    (Window.within_flush b.payload _ s hf)).mono ?_
  rintro t i ((((((h | h) | h) | h) | h) | h) | h) <;> exact ⟨h.1, by omega, by omega⟩

/-- After a flush of a sound slot, the slot, clean, is sound on the new store: every field
reads back. -/
theorem Sound.flush (h : b.Sound l d s id) (hs : s < d.stores.size) :
    b.clean.Sound l (b.flush d s).2 s id := by
  have := h.parent_offset; have := h.parent_width; have := h.left_offset; have := h.left_width
  have := h.leftDepth_offset; have := h.leftDepth_width; have := h.right_offset
  have := h.right_width; have := h.rightDepth_offset; have := h.rightDepth_width
  have := h.len_offset; have := h.len_width; have := h.payload_offset; have := h.payload_capacity
  unfold payloadCapacity nodeHeader at *
  -- the seven writes in slot order, each within its own field
  have w₁ := Cell.within_flush b.parent d s
  have w₂ := Cell.within_flush b.left (b.parent.flush d s).2 s
  have w₃ := Cell.within_flush b.leftDepth (b.left.flush (b.parent.flush d s).2 s).2 s
  have w₄ := Cell.within_flush b.right (b.leftDepth.flush (b.left.flush (b.parent.flush d s).2 s).2 s).2 s
  have w₅ := Cell.within_flush b.rightDepth (b.right.flush (b.leftDepth.flush (b.left.flush
    (b.parent.flush d s).2 s).2 s).2 s).2 s
  have w₆ := Cell.within_flush b.len (b.rightDepth.flush (b.right.flush (b.leftDepth.flush (b.left.flush
    (b.parent.flush d s).2 s).2 s).2 s).2 s).2 s
  have w₇ := Window.within_flush b.payload (b.len.flush (b.rightDepth.flush (b.right.flush (b.leftDepth.flush
    (b.left.flush (b.parent.flush d s).2 s).2 s).2 s).2 s).2 s).2 s h.payload_fits
  -- what comes before a field stays before it, what comes after stays after it
  have p₂ := w₁.mono fun t i (h : t = s ∧ _ ∧ _) => (⟨h.1, by omega⟩ : t = s ∧ i < b.left.offset)
  have p₃ := (p₂.trans w₂).mono fun t i h => (show t = s ∧ i < b.leftDepth.offset by
    rcases h with h | h <;> exact ⟨h.1, by omega⟩)
  have p₄ := (p₃.trans w₃).mono fun t i h => (show t = s ∧ i < b.right.offset by
    rcases h with h | h <;> exact ⟨h.1, by omega⟩)
  have p₅ := (p₄.trans w₄).mono fun t i h => (show t = s ∧ i < b.rightDepth.offset by
    rcases h with h | h <;> exact ⟨h.1, by omega⟩)
  have p₆ := (p₅.trans w₅).mono fun t i h => (show t = s ∧ i < b.len.offset by
    rcases h with h | h <;> exact ⟨h.1, by omega⟩)
  have p₇ := (p₆.trans w₆).mono fun t i h => (show t = s ∧ i < b.payload.offset by
    rcases h with h | h <;> exact ⟨h.1, by omega⟩)
  have q₆ := w₇.mono fun t i (h : t = s ∧ _ ∧ _) => (⟨h.1, by omega⟩ : t = s ∧ b.len.offset + b.len.width ≤ i)
  have q₅ := (w₆.trans q₆).mono fun t i h => (show t = s ∧ b.rightDepth.offset + b.rightDepth.width ≤ i by
    rcases h with h | h <;> exact ⟨h.1, by omega⟩)
  have q₄ := (w₅.trans q₅).mono fun t i h => (show t = s ∧ b.right.offset + b.right.width ≤ i by
    rcases h with h | h <;> exact ⟨h.1, by omega⟩)
  have q₃ := (w₄.trans q₄).mono fun t i h => (show t = s ∧ b.leftDepth.offset + b.leftDepth.width ≤ i by
    rcases h with h | h <;> exact ⟨h.1, by omega⟩)
  have q₂ := (w₃.trans q₃).mono fun t i h => (show t = s ∧ b.left.offset + b.left.width ≤ i by
    rcases h with h | h <;> exact ⟨h.1, by omega⟩)
  have q₁ := (w₂.trans q₂).mono fun t i h => (show t = s ∧ b.parent.offset + b.parent.width ≤ i by
    rcases h with h | h <;> exact ⟨h.1, by omega⟩)
  exact ⟨⟨h.id_eq, h.parent_offset, h.parent_width, h.left_offset, h.left_width,
    h.leftDepth_offset, h.leftDepth_width, h.right_offset, h.right_width, h.rightDepth_offset,
    h.rightDepth_width, h.len_offset, h.len_width, h.payload_offset, h.payload_capacity⟩,
    h.parent_fits, h.left_fits, h.leftDepth_fits, h.right_fits, h.rightDepth_fits, h.len_fits,
    h.payload_fits,
    Cell.trueTo_flush_between hs h.parent_fits h.parent_trueTo (Disk.Within.refl d _) q₁,
    Cell.trueTo_flush_between hs h.left_fits h.left_trueTo p₂ q₂,
    Cell.trueTo_flush_between hs h.leftDepth_fits h.leftDepth_trueTo p₃ q₃,
    Cell.trueTo_flush_between hs h.right_fits h.right_trueTo p₄ q₄,
    Cell.trueTo_flush_between hs h.rightDepth_fits h.rightDepth_trueTo p₅ q₅,
    Cell.trueTo_flush_between hs h.len_fits h.len_trueTo p₆ q₆,
    Window.trueTo_flush_between hs h.payload_fits h.payload_trueTo p₇ (Disk.Within.refl _ _)⟩

/-- A slot changed only outside reads as before. -/
theorem load_within {d' : Disk} {R : Nat → Nat → Prop} (hw : Disk.Confined d d' R)
    (hR : ∀ i, l.InSlot s id s i → ¬ R s i) (hcap : nodeHeader ≤ l.capacity) :
    NodeSlot.load d' s l id = NodeSlot.load d s l id := by
  have h : (NodeSlot.load d s l id).clean.Sound l d' s id := by
    rw [clean_load]
    exact (Sound.load d s l id hcap).within hw hR hcap
  rw [load_of_clean h hcap, clean_load]

/-- Whether a slot is sound looks only at the slot's bytes. -/
theorem reads_sound (b : NodeSlot) (hcap : nodeHeader ≤ l.capacity) :
    Disk.Reads (l.InSlot s id) fun d => b.Sound l d s id :=
  fun _ _ hsize hbytes h => h.within ⟨hsize, fun u i hn => hbytes u i (not_not.mp hn)⟩ (fun _ hi hn => hn hi) hcap

end NodeSlot

/-! ## The file part -/

namespace BlockFile

variable {d : Disk} {f : BlockFile}

/-- Writes confined to bytes the file owns keep it true to its store. -/
theorem Holds.within (h : f.Holds d) {d' : Disk} {R : Nat → Nat → Prop} (hw : Disk.Confined d d' R)
    (hR : ∀ t i, R t i → t = f.sid ∧ f.allocator.pool.Owns f.layout i) : f.Holds d' := by
  refine ⟨lt_of_lt_of_le h.store hw.1, h.allocator.within hw fun t i hreg hr => ?_, h.header, h.offset_eq,
    h.width_eq, h.value_eq, h.pos, h.fits, ?_⟩
  · obtain ⟨rfl, hown⟩ := hR t i hr
    exact h.allocator.not_region_of_owns hown hreg
  · refine h.trueTo.within hw fun i h₁ h₂ hr => ?_
    have := (hR _ i hr).2.1
    rw [h.offset_eq, h.width_eq] at h₂
    omega

/-- The bytes of an allocated slot are the file's own. -/
theorem Holds.owns_of_inSlot (h : f.Holds d) {k i : Nat} (hk : f.allocator.pool.Allocated k)
    (hi : f.layout.InSlot f.sid k f.sid i) : f.allocator.pool.Owns f.layout i := by
  obtain ⟨-, h₁, h₂⟩ := hi
  refine ⟨?_, .inr ?_⟩
  · have := h.header
    unfold Layout.offset at h₁
    omega
  · rwa [Layout.slot_of_lt h₁ h₂]

/-- A flush writes only the capacity cell and the allocator's bytes. -/
theorem Holds.within_flush (h : f.Holds d) :
    Disk.Within d (f.allocator.flush (f.capacity.flush d f.sid).2 f.sid).2
      fun t i => t = f.sid ∧ 8 ≤ i ∧ i < 12 ∨ f.allocator.Region f.layout f.sid t i := by
  have hw₁ : Disk.Within d (f.capacity.flush d f.sid).2 fun t i => t = f.sid ∧ 8 ≤ i ∧ i < 12 := by
    have := Cell.within_flush f.capacity d f.sid
    rwa [h.offset_eq, h.width_eq] at this
  have ha₁ : f.allocator.Holds f.layout (f.capacity.flush d f.sid).2 f.sid :=
    h.allocator.within hw₁.confined fun t i hreg ⟨ht, h8, h12⟩ => by
      subst ht
      exact h.capacity_apart h8 h12 hreg
  exact hw₁.trans (ha₁.flush (hw₁.1 ▸ h.store)).1

/-- What a flush writes is none of the bytes the file owns. -/
theorem Holds.not_flushed_of_owns (h : f.Holds d) {i : Nat} (hown : f.allocator.pool.Owns f.layout i) :
    ¬ (f.sid = f.sid ∧ 8 ≤ i ∧ i < 12 ∨ f.allocator.Region f.layout f.sid f.sid i) := by
  rintro (⟨-, -, hi⟩ | hreg)
  · have := hown.1
    omega
  · exact h.allocator.not_region_of_owns hown hreg

end BlockFile

end ColumnDb.Slot

namespace ColumnDb.Tree

open ColumnDb.Slot ColumnDb.Disk

namespace TreeFile

variable {d d' : Disk} {t t' : TreeFile} {id : Nat}

theorem ensureOpen_runs (h : t.core.disposed = false) :
    (onCore BlockFile.ensureOpen : TreeOp Unit) (d, t) = .ok () (d, t) := by
  simp [onCore, FileOp.zoom, BlockFile.ensureOpen, bind, EStateM.bind, FileOp.self, h, pure, EStateM.pure]

/-- `t'` over `d'` is `t` over `d` written back: sound, its file part true to the store with the
same ids, layout, place and state, the same kind and root, holding every node `t` holds, each
reading back as it was. -/
structure WrittenBack (d : Disk) (t : TreeFile) (d' : Disk) (t' : TreeFile) : Prop where
  sound : t'.Sound d'
  core : t'.core.Holds d'
  pool : t'.core.allocator.pool = t.core.allocator.pool
  layout : t'.core.layout = t.core.layout
  store : t'.core.store = t.core.store
  label : t'.core.label = t.core.label
  disposed : t'.core.disposed = t.core.disposed
  kind : t'.kind = t.kind
  root : t'.root.value = t.root.value
  present : ∀ k, t.present d k → t'.present d' k
  heap : ∀ k, t.present d k → t'.heap d' k = t.heap d k

theorem WrittenBack.trans {d₂ : Disk} {t₂ : TreeFile} (h₁ : WrittenBack d t d' t')
    (h₂ : WrittenBack d' t' d₂ t₂) : WrittenBack d t d₂ t₂ :=
  ⟨h₂.sound, h₂.core, h₂.pool.trans h₁.pool, h₂.layout.trans h₁.layout, h₂.store.trans h₁.store,
    h₂.label.trans h₁.label, h₂.disposed.trans h₁.disposed, h₂.kind.trans h₁.kind,
    h₂.root.trans h₁.root, fun k hk => h₂.present k (h₁.present k hk),
    fun k hk => (h₂.heap k (h₁.present k hk)).trans (h₁.heap k hk)⟩

/-- Two files that cache neither an id, of one kind and one layout over one store, find at that
id what the store holds there. -/
theorem look_of_load_eq (h' : t'.nodes[id]? = none) (h : t.nodes[id]? = none) (hkind : t'.kind = t.kind)
    (hsid : t'.core.sid = t.core.sid) (hlayout : t'.core.layout = t.core.layout)
    (hload : NodeSlot.load d' t.core.sid t.core.layout id = NodeSlot.load d t.core.sid t.core.layout id) :
    t'.look d' id = t.look d id := by
  simp only [look, h', h, hkind, hsid, hlayout, hload]

/-- A file that does not cache an id finds there a slot that reads back as a cached node. -/
theorem look_of_load_clean {n : Node} (h' : t'.nodes[id]? = none)
    (hload : NodeSlot.load d' t'.core.sid t'.core.layout id = n.slot.clean)
    (hd : t'.kind.decode n.slot.data = .ok n.value) : t'.look d' id = some ⟨n.slot.clean, n.value⟩ := by
  simp only [look, h', hload, NodeSlot.data_clean, hd]

theorem isAllocated_pool {k : Nat} (h : t.core.isAllocated k = true) : t.core.allocator.pool.Allocated k :=
  (Allocator.isAllocated_iff _ _).mp h

/-- Writing back the root cell and then every cached node: with a clean root and an empty
cache, the file is written back. -/
theorem Sound.writeBack (ht : t.Sound d) (hc : t.core.Holds d) (hheader : treeHeader ≤ t.core.layout.header) :
    WrittenBack d t (t.nodes.foldl (fun d _ n => (n.slot.flush d t.core.sid).2) (t.root.flush d t.core.sid).2)
      { t with root := (t.root.flush d t.core.sid).1, nodes := ∅ } := by
  have hcap := ht.capacity
  have hs : t.core.sid < d.stores.size := hc.store
  have hslot : ∀ k i, t.core.layout.InSlot t.core.sid k t.core.sid i → treeHeader ≤ i :=
    fun k i ⟨_, h₁, _⟩ => by
      unfold Layout.offset at h₁
      omega
  -- the root cell first, in bytes 12 to 20 of the file header
  have hw₁ : Disk.Within d (t.root.flush d t.core.sid).2 fun u i => u = t.core.sid ∧ 12 ≤ i ∧ i < 20 := by
    have := Cell.within_flush t.root d t.core.sid
    rwa [ht.root_offset, ht.root_width] at this
  have hstored : t.root.stored (t.root.flush d t.core.sid).2 t.core.sid = t.root.value :=
    Cell.stored_flush hs ht.root_fits ht.root_trueTo
  have hg₁ := Cell.grows_flush t.root d t.core.sid
  rw [Std.TreeMap.foldl_eq_foldl_toList]
  generalize (t.root.flush d t.core.sid).2 = d₁ at hw₁ hstored hg₁ ⊢
  -- then the cached nodes, each inside its own slot; the slots lie apart
  have hmem : ∀ x ∈ t.nodes.toList, t.nodes[x.1]? = some x.2 :=
    fun x hx => Std.TreeMap.mem_toList_iff_getElem?_eq_some.mp hx
  have hsound : ∀ x ∈ t.nodes.toList, x.2.slot.Sound t.core.layout d t.core.sid x.1 :=
    fun x hx => ht.nodes _ _ (hmem x hx)
  have hwx : ∀ d' (x : Nat × Node), x ∈ t.nodes.toList →
      Disk.Within d' (x.2.slot.flush d' t.core.sid).2 (t.core.layout.InSlot t.core.sid x.1) :=
    fun d' x hx => NodeSlot.within_flush (hsound x hx).toShaped (hsound x hx).payload_fits hcap d' _
  have hw₂ := Disk.within_foldl (fun d (x : Nat × Node) => (x.2.slot.flush d t.core.sid).2)
    (fun x => t.core.layout.InSlot t.core.sid x.1) _ hwx d₁
  have hdisj : t.nodes.toList.Pairwise fun x y => ∀ u i, t.core.layout.InSlot t.core.sid x.1 u i →
      ¬ t.core.layout.InSlot t.core.sid y.1 u i :=
    (Std.TreeMap.distinct_keys_toList (t := t.nodes)).imp fun hne =>
      Layout.inSlot_disjoint (by simpa using hne)
  -- each slot, flushed at its turn, reads back clean at the end
  have hclean : ∀ x ∈ t.nodes.toList, x.2.slot.clean.Sound t.core.layout
      (t.nodes.toList.foldl (fun d (x : Nat × Node) => (x.2.slot.flush d t.core.sid).2) d₁) t.core.sid x.1 :=
    Disk.foldl_flush _ (fun x => t.core.layout.InSlot t.core.sid x.1)
      (fun x d => x.2.slot.Sound t.core.layout d t.core.sid x.1 ∧ t.core.sid < d.stores.size)
      (fun x d => x.2.slot.clean.Sound t.core.layout d t.core.sid x.1) _ hwx
      (fun d' x _ ⟨h, hs'⟩ => NodeSlot.Sound.flush h hs')
      (fun x _ => show Disk.Reads _ _ from fun d₀ d₀' hsize hbytes ⟨h, hs'⟩ =>
        ⟨NodeSlot.reads_sound x.2.slot hcap d₀ d₀' hsize hbytes h, lt_of_lt_of_le hs' hsize⟩)
      (fun x _ => NodeSlot.reads_sound x.2.slot.clean hcap)
      hdisj d₁ (fun x hx => ⟨(hsound x hx).within hw₁.confined (fun i hi ⟨_, _, hr⟩ => by
        have := hslot _ _ hi
        unfold treeHeader at this
        omega) hcap, hw₁.1 ▸ hs⟩)
  generalize hd₂ : t.nodes.toList.foldl (fun d (x : Nat × Node) => (x.2.slot.flush d t.core.sid).2) d₁ = d₂
    at hw₂ hclean
  have hg₂ : Disk.Grows d d₂ :=
    hd₂ ▸ hg₁.trans (Disk.grows_foldl _ (fun d (x : Nat × Node) => NodeSlot.grows_flush x.2.slot d _) _ d₁)
  -- a node whose parent link was dirty was written, so its slot now begins inside the store
  have hwritten : ∀ x ∈ t.nodes.toList, x.2.slot.parent.dirty = true →
      t.core.layout.offset x.1 < d₂.size t.core.sid := fun x hx hd =>
    hd₂ ▸ Disk.lt_size_foldl _ (fun d (x : Nat × Node) => NodeSlot.grows_flush x.2.slot d _)
      (fun x => t.core.layout.offset x.1) (fun x => x ∈ t.nodes.toList ∧ x.2.slot.parent.dirty = true)
      (fun d' x ⟨hx, hd⟩ hs' => NodeSlot.lt_size_flush (hsound x hx).toShaped hd hs') _ d₁ (hw₁.1 ▸ hs)
      x hx ⟨hx, hd⟩
  have hwithin := hw₁.trans hw₂
  have hpresent : ∀ k, t.present d k →
      ({ t with root := (t.root.flush d t.core.sid).1, nodes := ∅ } : TreeFile).present d₂ k := by
    intro k hk
    refine ⟨hk.1, .inr ?_⟩
    cases hn : t.nodes[k]? with
    | some n =>
      have hx : (k, n) ∈ t.nodes.toList := Std.TreeMap.mem_toList_iff_getElem?_eq_some.mpr hn
      rcases ht.stored k n hn with hd | hin
      · exact hwritten _ hx hd
      · exact lt_of_lt_of_le hin (hg₂.2 _)
    | none =>
      have hin := hk.2.resolve_left ((getElem?_eq_none_iff t.nodes k).mp hn)
      exact lt_of_lt_of_le hin (hg₂.2 _)
  refine ⟨⟨fun _ _ hn => by simp at hn, hcap, by rw [Cell.flush_fst]; exact ht.root_offset,
    by rw [Cell.flush_fst]; exact ht.root_width, by rw [Cell.flush_fst]; exact ht.root_fits, fun _ => ?_,
    fun _ _ hn => by simp at hn, fun _ hn => by simp at hn, fun _ _ hn => by simp at hn⟩,
    hc.within hwithin.confined ?_, rfl, rfl, rfl, rfl, rfl, rfl, by rw [Cell.flush_fst], hpresent, fun k hk => ?_⟩
  · -- the root cell lies in the file header, before every slot
    rw [Cell.flush_fst]
    show Bytes.readLE (d₂.read t.core.sid t.root.offset t.root.width) = t.root.value
    rw [hw₂.confined.read_eq _ _ _ fun i h₁ h₂ ⟨x, _, hi⟩ => by
      have := hslot _ _ hi
      rw [ht.root_offset, ht.root_width] at h₂
      unfold treeHeader at this
      omega]
    exact hstored
  · -- the root cell and the slots of cached nodes are the file's own bytes
    rintro u i (⟨rfl, h₁, h₂⟩ | ⟨x, hx, hi⟩)
    · exact ⟨rfl, h₁, .inl (by unfold treeHeader at hheader; omega)⟩
    · refine ⟨hi.1, hc.owns_of_inSlot (isAllocated_pool (ht.allocated _ (mem_of_getElem? (hmem x hx)))) ?_⟩
      obtain ⟨rfl, h₁, h₂⟩ := hi
      exact ⟨rfl, h₁, h₂⟩
  · -- a cached node reads back clean; any other slot was not written
    rw [heap_of_present (hpresent k hk), heap_of_present hk]
    cases hn : t.nodes[k]? with
    | some n =>
      have hx : (k, n) ∈ t.nodes.toList := Std.TreeMap.mem_toList_iff_getElem?_eq_some.mpr hn
      have hl : ({ t with root := (t.root.flush d t.core.sid).1, nodes := ∅ } : TreeFile).look d₂ k =
          some ⟨n.slot.clean, n.value⟩ :=
        look_of_load_clean (by simp) (NodeSlot.load_of_clean (hclean _ hx) hcap) (ht.decodes k n hn)
      rw [hl, look_of_cached hn]
      rfl
    | none =>
      have hl : ({ t with root := (t.root.flush d t.core.sid).1, nodes := ∅ } : TreeFile).look d₂ k =
          t.look d k :=
        look_of_load_eq (by simp) hn rfl rfl rfl (NodeSlot.load_within hwithin.confined ?_ hcap)
      · rw [hl]
      rintro i hi (⟨_, _, hr⟩ | ⟨x, hx, hx'⟩)
      · have := hslot _ _ hi
        unfold treeHeader at this
        omega
      · have hne : x.1 ≠ k := fun he => by
          have := hmem x hx
          rw [he, hn] at this
          cases this
        exact Layout.inSlot_disjoint hne _ _ hx' hi

/-- Files whose file parts have one pool allocate the same ids. -/
theorem isAllocated_congr {c c' : BlockFile} (h : c'.allocator.pool = c.allocator.pool) (k : Nat) :
    c'.isAllocated k = c.isAllocated k :=
  Bool.eq_iff_iff.mpr (by
    rw [show c'.isAllocated k = c'.allocator.isAllocated k from rfl,
      show c.isAllocated k = c.allocator.isAllocated k from rfl, Allocator.isAllocated_iff,
      Allocator.isAllocated_iff, h])

/-- Flushing the file part writes only the capacity cell and the allocator's bytes, none of which
belongs to the root or to a node: the file is written back, and the store opens again as the
flushed file part. -/
theorem Sound.flushCore (ht : t.Sound d) (hc : t.core.Holds d) (hheader : treeHeader ≤ t.core.layout.header) :
    ∃ d' c, (onCore BlockFile.flush : TreeOp Unit) (d, t) = .ok () (d', { t with core := c }) ∧
      WrittenBack d t d' { t with core := c } ∧ c.created = t.core.created ∧
      ∀ slotHeader, slotHeader < t.core.layout.capacity →
        BlockFile.open d' t.core.store t.core.label t.core.layout.header slotHeader t.core.layout.capacity =
          .ok { c with created := false, disposed := false } := by
  obtain ⟨d', c, hflush, hholds, hpool, -, -, -, hreopen⟩ := hc.flush
  have hflush' := hflush
  simp only [BlockFile.flush_eq, EStateM.Result.ok.injEq, Prod.mk.injEq, true_and] at hflush'
  obtain ⟨rfl, rfl⟩ := hflush'
  have hw := hc.within_flush.confined
  have hg := BlockFile.grows_flush d t.core
  have hcap := ht.capacity
  -- an allocated slot and the root cell are the file's own bytes, which a flush leaves alone
  have hslot : ∀ k, t.core.isAllocated k = true → ∀ i, t.core.layout.InSlot t.core.sid k t.core.sid i →
      ¬ (t.core.sid = t.core.sid ∧ 8 ≤ i ∧ i < 12 ∨ t.core.allocator.Region t.core.layout t.core.sid t.core.sid i) :=
    fun k hk i hi => hc.not_flushed_of_owns (hc.owns_of_inSlot (isAllocated_pool hk) hi)
  have hpresent : ∀ k, t.present d k → ({ t with core := { t.core with capacity := (t.core.capacity.flush d t.core.sid).1, allocator := (t.core.allocator.flush (t.core.capacity.flush d t.core.sid).2 t.core.sid).1 } } : TreeFile).present
      (t.core.allocator.flush (t.core.capacity.flush d t.core.sid).2 t.core.sid).2 k := fun k hk =>
    ⟨(isAllocated_congr hpool k).trans hk.1, hk.2.imp_right fun h => lt_of_lt_of_le h (hg.2 _)⟩
  refine ⟨(t.core.allocator.flush (t.core.capacity.flush d t.core.sid).2 t.core.sid).2, { t.core with capacity := (t.core.capacity.flush d t.core.sid).1, allocator := (t.core.allocator.flush (t.core.capacity.flush d t.core.sid).2 t.core.sid).1 },
    by simp only [onCore, FileOp.zoom, hflush], ⟨⟨fun k n hn => ?_, hcap, ht.root_offset,
    ht.root_width, ht.root_fits, ?_, ht.decodes, fun k hk => (isAllocated_congr hpool k).trans (ht.allocated k hk),
    fun k n hn => (ht.stored k n hn).imp_right fun h => lt_of_lt_of_le h (hg.2 _)⟩, hholds, hpool, rfl, rfl,
    rfl, rfl, rfl, rfl, hpresent, fun k hk => ?_⟩, rfl, hreopen⟩
  · exact (ht.nodes k n hn).within hw (hslot k (ht.allocated k (mem_of_getElem? hn))) hcap
  · refine ht.root_trueTo.within hw fun i h₁ h₂ hr => hc.not_flushed_of_owns ⟨?_, .inl ?_⟩ hr
    · rw [ht.root_offset] at h₁
      exact h₁
    · rw [ht.root_offset, ht.root_width] at h₂
      unfold treeHeader at hheader
      omega
  · rw [heap_of_present (hpresent k hk), heap_of_present hk]
    cases hn : t.nodes[k]? with
    | some n => simp only [look, hn]
    | none =>
      have hl : ({ t with core := { t.core with capacity := (t.core.capacity.flush d t.core.sid).1, allocator := (t.core.allocator.flush (t.core.capacity.flush d t.core.sid).2 t.core.sid).1 } } : TreeFile).look
          (t.core.allocator.flush (t.core.capacity.flush d t.core.sid).2 t.core.sid).2 k = t.look d k :=
        look_of_load_eq hn hn rfl rfl rfl (NodeSlot.load_within hw (hslot k hk.1) hcap)
      rw [hl]

/-- A flush of a sound, open tree file succeeds. The file is written back, with an empty cache
and a clean root, and the store opens again as the flushed file part. -/
theorem Sound.flush (ht : t.Sound d) (hc : t.core.Holds d) (hopen : t.core.disposed = false)
    (hheader : treeHeader ≤ t.core.layout.header) :
    ∃ d' t', TreeFile.flush (d, t) = .ok () (d', t') ∧ WrittenBack d t d' t' ∧ t'.nodes = ∅ ∧
      t'.root.dirty = false ∧ t'.core.created = t.core.created ∧
      ∀ slotHeader, slotHeader < t.core.layout.capacity →
        BlockFile.open d' t.core.store t.core.label t.core.layout.header slotHeader t.core.layout.capacity =
          .ok { t'.core with created := false, disposed := false } := by
  have hA := ht.writeBack hc hheader
  obtain ⟨d', c, hrun, hB, hcreated, hreopen⟩ := hA.sound.flushCore hA.core hheader
  refine ⟨d', _, ?_, hA.trans hB, rfl, by rw [Cell.flush_fst], hcreated, hreopen⟩
  show EStateM.bind (onCore BlockFile.ensureOpen) _ (d, t) = _
  simp only [EStateM.bind, ensureOpen_runs hopen]
  exact hrun

/-- A store whose tree file was flushed opens again as that file. -/
theorem open_of_flushed (ht : t.Sound d) (hnodes : t.nodes = ∅) (hclean : t.root.dirty = false)
    (hreopen : BlockFile.open d t.core.store t.core.label treeHeader nodeHeader t.core.layout.capacity =
      .ok { t.core with created := false, disposed := false }) :
    TreeFile.open d t.core.store t.core.label t.kind t.core.layout.capacity =
      .ok { t with core := { t.core with created := false, disposed := false } } := by
  have hroot : Cell.load d t.core.store.store 12 8 = t.root := by
    show Cell.load d t.core.sid 12 8 = t.root
    rw [← ht.root_offset, ← ht.root_width, Cell.load_of_stored (ht.root_trueTo hclean)]
    cases hr : t.root
    simp only [hr] at hclean ⊢
    rw [hclean]
  unfold TreeFile.open
  simp only [hreopen, bind, Except.bind, pure, Except.pure, Bool.false_eq_true, if_false, hroot, ← hnodes]

end TreeFile

end ColumnDb.Tree
