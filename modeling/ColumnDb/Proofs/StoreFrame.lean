import Mathlib
import ColumnDb.Proofs.BlobFlush
import ColumnDb.Proofs.DataModel

/-!
# Files on different stores

A file writes only its own store. `Disk.OnlyIn d d' s` says that `d'` differs from `d` at most
in store `s`; every flush of a slot, a chain or an allocator is such a change, and so is every
flush and disposal of a file, which moreover keeps the file on its store (`FileOp.WritesIn`,
built up from the operations' parts: binds, reads of the file, changes of the file, writes).

What a file holds, and what its store opens as, is read from that store alone: a file true to its
store stays so, and opens as before, whatever is written to another store
(`DataFile.Holds.apart`, `BlobFile.Holds.apart`, `BlockFile.open_apart`). Files on distinct stores,
such as the row pointers and the blobs of a text file, therefore do not disturb one another; and
`Disk.Touches S d d'`, writes to stores of `S` one store at a time, carries any such property of a
file off `S` across them (`Touches.keeps`).
-/

set_option autoImplicit false

namespace ColumnDb.Disk

/-- `d'` differs from `d` at most in store `s`: every store of `d` is kept, each other one with the
same bytes, and any store made since is still empty. -/
def OnlyIn (d d' : Disk) (s : Nat) : Prop :=
  d.stores.size ≤ d'.stores.size ∧ ∀ t, t ≠ s → d'.bytesOf t = d.bytesOf t

variable {d d' d'' : Disk} {s t : Nat}

theorem OnlyIn.refl (d : Disk) (s : Nat) : OnlyIn d d s := ⟨le_rfl, fun _ _ => rfl⟩

theorem OnlyIn.trans (h₁ : OnlyIn d d' s) (h₂ : OnlyIn d' d'' s) : OnlyIn d d'' s :=
  ⟨h₁.1.trans h₂.1, fun t ht => (h₂.2 t ht).trans (h₁.2 t ht)⟩

theorem onlyIn_write (d : Disk) (s off : Nat) (bs : List UInt8) : OnlyIn d (d.write s off bs) s :=
  ⟨(stores_size_write d s off bs).ge, fun t ht => by rw [bytesOf_write, if_neg fun h => ht h.1]⟩

/-- Changes of store `s` one after another change only store `s`. -/
theorem onlyIn_foldl {α : Type} (f : Disk → α → Disk) (hf : ∀ d x, OnlyIn d (f d x) s) :
    ∀ (L : List α) (d : Disk), OnlyIn d (L.foldl f d) s
  | [], d => OnlyIn.refl d s
  | x :: xs, d => (hf d x).trans (onlyIn_foldl f hf xs (f d x))

theorem OnlyIn.byte_eq (h : OnlyIn d d' s) (ht : t ≠ s) (i : Nat) : d'.byte t i = d.byte t i := by
  unfold byte
  rw [h.2 t ht]

/-- A change within store `s` is a change of bytes of store `s` only. -/
theorem OnlyIn.confined (h : OnlyIn d d' s) : Confined d d' fun t _ => t = s :=
  ⟨h.1, fun _ i ht => h.byte_eq ht i⟩

theorem OnlyIn.read_eq (h : OnlyIn d d' s) (ht : t ≠ s) : d'.read t = d.read t := by
  funext off len
  unfold read
  rw [h.2 t ht]

theorem OnlyIn.size_eq (h : OnlyIn d d' s) (ht : t ≠ s) : d'.size t = d.size t := by
  unfold size
  rw [h.2 t ht]

/-- A property that reads only bytes outside store `s` survives a change of store `s`. -/
theorem OnlyIn.reads {R : Nat → Nat → Prop} {P : Disk → Prop} (h : OnlyIn d d' s) (hP : Reads R P)
    (hR : ∀ t i, R t i → t ≠ s) (hd : P d) : P d' :=
  hP d d' h.1 (fun t i hr => h.byte_eq (hR t i hr) i) hd

/-! ## Writes to several stores -/

/-- `d'` comes from `d` by writes to stores of `S`, one store at a time. -/
inductive Touches (S : Nat → Prop) : Disk → Disk → Prop
  | refl (d : Disk) : Touches S d d
  | step {d₁ d₂ d₃ : Disk} {s : Nat} : S s → OnlyIn d₁ d₂ s → Touches S d₂ d₃ → Touches S d₁ d₃

variable {S T : Nat → Prop}

theorem OnlyIn.touches (h : OnlyIn d d' s) (hs : S s) : Touches S d d' := .step hs h (.refl d')

theorem Touches.trans (h₁ : Touches S d d') (h₂ : Touches S d' d'') : Touches S d d'' := by
  induction h₁ with
  | refl => exact h₂
  | step hs hw _ ih => exact .step hs hw (ih h₂)

theorem Touches.mono (h : Touches S d d') (hST : ∀ s, S s → T s) : Touches T d d' := by
  induction h with
  | refl d => exact .refl d
  | step hs hw _ ih => exact .step (hST _ hs) hw ih

/-- What every write to a store of `S` keeps, any number of them keep. -/
theorem Touches.keeps {P : Disk → Prop} (h : Touches S d d')
    (hP : ∀ d₁ d₂ s, S s → OnlyIn d₁ d₂ s → P d₁ → P d₂) (hd : P d) : P d' := by
  induction h with
  | refl => exact hd
  | step hs hw _ ih => exact ih (hP _ _ _ hs hw hd)

end ColumnDb.Disk

/-! ## What a flush writes -/

namespace ColumnDb.Slot

open ColumnDb.Disk

theorem Cell.onlyIn_flush (c : Cell) (d : Disk) (s : Nat) : Disk.OnlyIn d (c.flush d s).2 s := by
  rw [Cell.flush_snd]
  split
  · exact Disk.onlyIn_write d s _ _
  · exact Disk.OnlyIn.refl d s

theorem Window.onlyIn_flush (w : Window) (d : Disk) (s : Nat) : Disk.OnlyIn d (w.flush d s).2 s := by
  rw [Window.flush_snd]
  split
  · exact Disk.onlyIn_write d s _ _
  · exact Disk.OnlyIn.refl d s

theorem ChunkSlot.onlyIn_flush (b : ChunkSlot) (d : Disk) (s : Nat) : Disk.OnlyIn d (b.flush d s).2 s := by
  rw [ChunkSlot.flush_snd]
  exact ((Cell.onlyIn_flush _ _ _).trans (Cell.onlyIn_flush _ _ _)).trans (Window.onlyIn_flush _ _ _)

theorem NodeSlot.onlyIn_flush (b : NodeSlot) (d : Disk) (s : Nat) : Disk.OnlyIn d (b.flush d s).2 s := by
  rw [NodeSlot.flush_snd]
  refine (((((((Cell.onlyIn_flush _ _ _).trans (Cell.onlyIn_flush _ _ _)).trans (Cell.onlyIn_flush _ _ _)).trans
    (Cell.onlyIn_flush _ _ _)).trans (Cell.onlyIn_flush _ _ _)).trans (Cell.onlyIn_flush _ _ _)).trans
    (Window.onlyIn_flush _ _ _))

theorem Allocator.onlyIn_flush (a : Allocator) (d : Disk) (s : Nat) : Disk.OnlyIn d (a.flush d s).2 s := by
  rw [Allocator.flush_snd, FreeChain.flush_snd]
  exact (Cell.onlyIn_flush _ _ _).trans (Disk.onlyIn_foldl _ (fun d (b : Nat × LinkSlot) => Cell.onlyIn_flush b.2.next d s) _ _)

/-! ## Operations that write only their file's store -/

namespace FileOp

/-- An operation that, whenever it succeeds, changes at most the store `sid` names, and leaves
the file on that store. -/
def WritesIn {σ α : Type} (sid : σ → Nat) (x : FileOp σ α) : Prop :=
  ∀ d s a d' s', x (d, s) = .ok a (d', s') → Disk.OnlyIn d d' (sid s) ∧ sid s' = sid s

variable {σ τ α β : Type} {sid : σ → Nat}

theorem WritesIn.pure (a : α) : WritesIn sid (pure a : FileOp σ α) := by
  intro d s b d' s' h
  obtain ⟨-, hst⟩ := EStateM.Result.ok.inj h
  obtain ⟨rfl, rfl⟩ := Prod.mk.inj hst
  exact ⟨Disk.OnlyIn.refl d _, rfl⟩

theorem WritesIn.self : WritesIn sid (FileOp.self : FileOp σ σ) := by
  intro d s b d' s' h
  obtain ⟨-, hst⟩ := EStateM.Result.ok.inj h
  obtain ⟨rfl, rfl⟩ := Prod.mk.inj hst
  exact ⟨Disk.OnlyIn.refl d _, rfl⟩

theorem WritesIn.fail (e : FileError) : WritesIn sid (FileOp.fail e : FileOp σ α) := by
  intro d s b d' s' h
  cases h

theorem WritesIn.modify {f : σ → σ} (hf : ∀ s, sid (f s) = sid s) : WritesIn sid (FileOp.modify f) := by
  intro d s b d' s' h
  obtain ⟨-, hst⟩ := EStateM.Result.ok.inj h
  obtain ⟨rfl, rfl⟩ := Prod.mk.inj hst
  exact ⟨Disk.OnlyIn.refl d _, hf s⟩

theorem WritesIn.write {f : Disk → σ → σ × Disk} (hf : ∀ d s, Disk.OnlyIn d (f d s).2 (sid s) ∧ sid (f d s).1 = sid s) :
    WritesIn sid (FileOp.write f) := by
  intro d s b d' s' h
  obtain ⟨-, hst⟩ := EStateM.Result.ok.inj h
  obtain ⟨rfl, rfl⟩ := Prod.mk.inj hst
  exact hf d s

theorem WritesIn.bind {x : FileOp σ α} {f : α → FileOp σ β} (hx : WritesIn sid x) (hf : ∀ a, WritesIn sid (f a)) :
    WritesIn sid (x >>= f) := by
  intro d s b d'' s'' h
  cases hrun : x (d, s) with
  | ok a st =>
    obtain ⟨d', s'⟩ := st
    rw [FileOp.bind_ok hrun] at h
    obtain ⟨h₁, h₁'⟩ := hx d s a d' s' hrun
    obtain ⟨h₂, h₂'⟩ := hf a d' s' b d'' s'' h
    rw [h₁'] at h₂
    exact ⟨h₁.trans h₂, h₂'.trans h₁'⟩
  | error e st =>
    rw [FileOp.bind_error hrun] at h
    cases h

theorem WritesIn.ite {c : Prop} [Decidable c] {x y : FileOp σ α} (hx : WritesIn sid x) (hy : WritesIn sid y) :
    WritesIn sid (if c then x else y) := by
  split
  · exact hx
  · exact hy

/-- An operation on a part of the file writes only the part's store, which the file keeps. -/
theorem WritesIn.zoom {get : σ → τ} {put : σ → τ → σ} {sid : τ → Nat} {m : FileOp τ α}
    (hm : WritesIn sid m) (hput : ∀ s t, get (put s t) = t) :
    WritesIn (fun s => sid (get s)) (FileOp.zoom get put m) := by
  intro d s a d' s' h
  cases hrun : m (d, get s) with
  | ok a₁ st =>
    obtain ⟨d₁, t₁⟩ := st
    rw [FileOp.zoom_ok hrun] at h
    obtain ⟨rfl, hst⟩ := EStateM.Result.ok.inj h
    obtain ⟨rfl, rfl⟩ := Prod.mk.inj hst
    obtain ⟨hw, hsid⟩ := hm d (get s) a₁ d₁ t₁ hrun
    exact ⟨hw, show sid (get (put s t₁)) = sid (get s) by rw [hput, hsid]⟩
  | error e st =>
    obtain ⟨d₁, t₁⟩ := st
    rw [FileOp.zoom_error hrun] at h
    cases h

end FileOp

namespace BlockFile

open FileOp

theorem writesIn_ensureOpen : WritesIn BlockFile.sid BlockFile.ensureOpen :=
  WritesIn.bind WritesIn.self fun _ => WritesIn.ite (WritesIn.fail _) (WritesIn.pure _)

theorem writesIn_flush : WritesIn BlockFile.sid BlockFile.flush :=
  WritesIn.write fun _ _ => ⟨(Cell.onlyIn_flush _ _ _).trans (Allocator.onlyIn_flush _ _ _), rfl⟩

theorem writesIn_dispose : WritesIn BlockFile.sid BlockFile.dispose :=
  WritesIn.bind WritesIn.self fun _ =>
    WritesIn.ite (WritesIn.pure _) (WritesIn.bind writesIn_flush fun _ => WritesIn.modify fun _ => rfl)

end BlockFile

/-! ## What a store reads as, after another store is written -/

section Apart

variable {d d' : Disk} {s t : Nat}

theorem Cell.load_apart (hw : Disk.OnlyIn d d' s) (ht : t ≠ s) : Cell.load d' t = Cell.load d t := by
  funext off width
  unfold Cell.load
  rw [hw.read_eq ht]

theorem LinkSlot.load_apart (hw : Disk.OnlyIn d d' s) (ht : t ≠ s) : LinkSlot.load d' t = LinkSlot.load d t := by
  funext l id
  unfold LinkSlot.load
  rw [Cell.load_apart hw ht]

theorem ChunkSlot.load_apart (hw : Disk.OnlyIn d d' s) (ht : t ≠ s) : ChunkSlot.load d' t = ChunkSlot.load d t := by
  funext l id
  unfold ChunkSlot.load
  rw [hw.read_eq ht]

theorem FreeChain.walk_apart (hw : Disk.OnlyIn d d' s) (ht : t ≠ s) (l : Layout) (latest : Nat) :
    ∀ fuel next acc, FreeChain.walk d' t l latest fuel next acc = FreeChain.walk d t l latest fuel next acc := by
  intro fuel
  induction fuel with
  | zero => intro next acc; rfl
  | succ fuel ih =>
    intro next acc
    simp only [FreeChain.walk, LinkSlot.load_apart hw ht, ih]

theorem FreeChain.open_apart (hw : Disk.OnlyIn d d' s) (ht : t ≠ s) : FreeChain.open d' t = FreeChain.open d t := by
  funext l latest
  unfold FreeChain.open
  rw [FreeChain.walk_apart hw ht, hw.size_eq ht, LinkSlot.load_apart hw ht]

theorem Allocator.open_apart (hw : Disk.OnlyIn d d' s) (ht : t ≠ s) : Allocator.open d' t = Allocator.open d t := by
  funext l
  unfold Allocator.open
  rw [Cell.load_apart hw ht, FreeChain.open_apart hw ht]

/-- A store opens as before whatever is written to another store. -/
theorem BlockFile.open_apart (hw : Disk.OnlyIn d d' s) {store : StoreRef} (ht : store.store ≠ s) (label : String)
    (header slotHeader capacity : Nat) :
    BlockFile.open d' store label header slotHeader capacity = BlockFile.open d store label header slotHeader capacity := by
  unfold BlockFile.open
  rw [hw.size_eq ht, Cell.load_apart hw ht, Allocator.open_apart hw ht]

/-- A file true to its store stays so whatever is written to another store. -/
theorem BlockFile.Holds.apart {f : BlockFile} (h : f.Holds d) (hw : Disk.OnlyIn d d' s) (hs : s ≠ f.sid) :
    f.Holds d' := by
  have hw' := hw.confined
  refine ⟨lt_of_lt_of_le h.store hw.1, h.allocator.within hw' fun t i hreg ht => ?_, h.header, h.offset_eq, h.width_eq,
    h.value_eq, h.pos, h.fits, h.trueTo.within hw' fun i _ _ hi => hs hi.symm⟩
  -- the allocator's bytes lie in the file's own store
  rcases hreg with ⟨ht', -⟩ | ⟨id, -, ht', -⟩ <;> exact hs (ht.symm.trans ht')

end Apart

end ColumnDb.Slot

namespace ColumnDb.Data

open ColumnDb.Slot ColumnDb.Disk ColumnDb.Slot.FileOp

namespace DataFile

theorem writesIn_onCore {α : Type} {m : FileOp BlockFile α} (hm : WritesIn BlockFile.sid m) :
    WritesIn (fun f : DataFile => f.core.sid) (onCore m) :=
  WritesIn.zoom hm fun _ _ => rfl

theorem writesIn_flush : WritesIn (fun f : DataFile => f.core.sid) DataFile.flush :=
  WritesIn.bind (writesIn_onCore BlockFile.writesIn_ensureOpen) fun _ =>
    WritesIn.bind (WritesIn.write fun _ _ => ⟨by
        rw [Std.TreeMap.foldl_eq_foldl_toList]
        exact Disk.onlyIn_foldl _ (fun d (r : Nat × ChunkSlot) => ChunkSlot.onlyIn_flush r.2 d _) _ _, rfl⟩) fun _ =>
      writesIn_onCore BlockFile.writesIn_flush

theorem writesIn_dispose : WritesIn (fun f : DataFile => f.core.sid) DataFile.dispose :=
  WritesIn.bind WritesIn.self fun _ =>
    WritesIn.ite (WritesIn.pure _) (WritesIn.bind writesIn_flush fun _ => writesIn_onCore BlockFile.writesIn_dispose)

variable {d d' : Disk} {s : Nat} {f : DataFile} {M : Nat → Option Value}

theorem open_apart (hw : Disk.OnlyIn d d' s) {store : StoreRef} (ht : store.store ≠ s) (label : String)
    (kind : ValueKind) (capacity : Nat) :
    DataFile.open d' store label kind capacity = DataFile.open d store label kind capacity := by
  unfold DataFile.open
  rw [BlockFile.open_apart hw ht]

/-- A file holding a map still holds it whatever is written to another store. -/
theorem Holds.apart (h : f.Holds d M) (hw : Disk.OnlyIn d d' s) (hs : s ≠ f.core.sid) : f.Holds d' M := by
  have hslot : ∀ k, f.slotAt d' k = f.slotAt d k := fun k => by
    unfold slotAt
    rw [ChunkSlot.load_apart hw (Ne.symm hs)]
  refine ⟨h.core.apart hw hs, h.opened, h.layout, h.allocated, fun k v hv => by rw [hslot]; exact h.decodes k v hv,
    fun k r hr => ?_⟩
  obtain ⟨hsound, ha⟩ := h.cached k r hr
  -- a cached slot's soundness reads only the slot's bytes
  exact ⟨hw.reads (ChunkSlot.reads_sound r h.layout.2.le) (fun t i hi ht => hs (ht.symm.trans hi.1)) hsound, ha⟩

theorem Models.apart {m : DataModel} (h : f.Models d m) (hw : Disk.OnlyIn d d' s) (hs : s ≠ f.core.sid) :
    f.Models d' m :=
  ⟨h.holds.apart hw hs, h.pool⟩

end DataFile

end ColumnDb.Data

namespace ColumnDb.Blob

open ColumnDb.Slot ColumnDb.Disk ColumnDb.Slot.FileOp

theorem Chain.onlyIn_flush (c : Chain) (d : Disk) (s : Nat) : Disk.OnlyIn d (c.flush d s).2 s := by
  rw [Chain.flush_eq]
  exact Disk.onlyIn_foldl _ (fun d b => ChunkSlot.onlyIn_flush b d s) c d

namespace BlobFile

theorem writesIn_onCore {α : Type} {m : FileOp BlockFile α} (hm : WritesIn BlockFile.sid m) :
    WritesIn (fun f : BlobFile => f.core.sid) (onCore m) :=
  WritesIn.zoom hm fun _ _ => rfl

theorem writesIn_flush : WritesIn (fun f : BlobFile => f.core.sid) BlobFile.flush :=
  WritesIn.bind (writesIn_onCore BlockFile.writesIn_ensureOpen) fun _ =>
    WritesIn.bind (WritesIn.write fun _ _ => ⟨by
        rw [Std.TreeMap.foldl_eq_foldl_toList]
        exact Disk.onlyIn_foldl _ (fun d (c : Nat × Chain) => Chain.onlyIn_flush c.2 d _) _ _, rfl⟩) fun _ =>
      writesIn_onCore BlockFile.writesIn_flush

theorem writesIn_dispose : WritesIn (fun f : BlobFile => f.core.sid) BlobFile.dispose :=
  WritesIn.bind WritesIn.self fun _ =>
    WritesIn.ite (WritesIn.pure _) (WritesIn.bind writesIn_flush fun _ => writesIn_onCore BlockFile.writesIn_dispose)

variable {d d' : Disk} {s : Nat} {f : BlobFile} {S : Nat → List Nat} {M : Nat → Option (List UInt8)}

theorem open_apart (hw : Disk.OnlyIn d d' s) {store : StoreRef} (ht : store.store ≠ s) (label : String)
    (capacity : Nat) : BlobFile.open d' store label capacity = BlobFile.open d store label capacity := by
  unfold BlobFile.open
  rw [BlockFile.open_apart hw ht]

/-- A file holding blobs still holds them, in the same slots, whatever is written to another
store. -/
theorem Holds.apart (h : f.Holds d S M) (hw : Disk.OnlyIn d d' s) (hs : s ≠ f.core.sid) : f.Holds d' S M := by
  have hchain : ∀ x, f.chainAt d' S x = f.chainAt d S x := fun x => by
    unfold chainAt
    rw [ChunkSlot.load_apart hw (Ne.symm hs)]
  refine ⟨⟨h.splits.core.apart hw hs, h.splits.parts⟩, h.opened, h.layout, fun x c hc => ?_,
    fun x => by rw [hchain]; exact h.blobs x, h.first, fun x hx => by rw [hchain]; exact h.linked x hx,
    fun x hx => by rw [hchain]; exact h.count x hx⟩
  obtain ⟨hids, hne, hsound⟩ := h.cached x c hc
  -- a cached slot's soundness reads only the slot's bytes
  exact ⟨hids, hne, fun b hb => hw.reads (ChunkSlot.reads_sound b h.layout.2.le)
    (fun t i hi ht => hs (ht.symm.trans hi.1)) (hsound b hb)⟩

theorem Models.apart {m : BlobModel} (h : f.Models d m) (hw : Disk.OnlyIn d d' s) (hs : s ≠ f.core.sid) :
    f.Models d' m :=
  ⟨h.holds.apart hw hs, h.pool⟩

end BlobFile

end ColumnDb.Blob
