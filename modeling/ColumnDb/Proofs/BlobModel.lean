import Mathlib
import ColumnDb.Proofs.BlobStore
import ColumnDb.Proofs.Simulation

/-!
# A blob file runs as its model

What a program sees of a blob file is a pool of ids, the slots each blob owns, first slot first,
and the blobs themselves: `BlobModel`. Its operations say exactly which ids a write takes and
gives back. Adding takes the id the pool hands out, or the id asked for; writing a blob of `L`
bytes over its slots keeps the first `slotCount p L` of them, releases the others from the end,
and takes the missing ones from the pool (`rechain`); deleting releases the blob's slots, first
slot first.

`BlobFile.Models d f m` says that the file `f` over the disk `d` holds the model's blobs in the
model's slots, each blob cached or stored (`BlobFile.Holds`), and that its allocator stands for
the model's pool. Reading, adding, rewriting and deleting keep it and answer as the model does
(`Models.get`, `Models.add_ok`, `Models.update_live`, `Models.delete`). The disk is not written
between two flushes, so every statement here keeps the disk as it is.
-/

set_option autoImplicit false

namespace ColumnDb.Slot.IdPool

/-- Taking an id raises `latest` at most to one past the larger of `latest` and the id asked for. -/
theorem latest_take_le {p q : IdPool} {id? : Option Nat} {x : Nat} (h : p.take id? = some (x, q)) :
    q.latest ≤ max p.latest (id?.getD 0) + 1 := by
  cases id? with
  | none =>
    have hq : p.next.2 = q := congrArg Prod.snd (Option.some.inj h)
    have := latest_next_le p
    rw [hq] at this
    simp only [Option.getD_none]
    omega
  | some y =>
    obtain ⟨q', hq', hyq⟩ := Option.map_eq_some_iff.mp h
    obtain ⟨-, rfl⟩ := Prod.mk.inj hyq
    have := latest_claim_le hq'
    simp only [Option.getD_some]
    omega

end ColumnDb.Slot.IdPool

namespace ColumnDb.Blob

open ColumnDb.Slot ColumnDb.Disk

/-- What a program sees of a blob file: its pool of ids, the slots each blob owns, first slot
first, and the blobs. -/
structure BlobModel where
  pool : IdPool
  slots : Nat → List Nat
  blobs : Nat → Option (List UInt8)

namespace BlobModel

variable (m : BlobModel) (p : Nat)

/-- The model with the blob at `x`, whose slots were `L`, written over with `data` from the pool
`pool`, `p` bytes to a slot. -/
def put (pool : IdPool) (x : Nat) (L : List Nat) (data : List UInt8) : BlobModel :=
  ⟨(rechain p pool L data.length).2, Function.update m.slots x (rechain p pool L data.length).1,
    Function.update m.blobs x (some data)⟩

/-- Adding a blob under a given id, or under a free one: the pool takes the id and the blob is
written in a chain starting there; an id the pool refuses is reported. -/
def add (data : List UInt8) (id? : Option Nat) : Except FileError Nat × BlobModel :=
  match m.pool.take id? with
  | some (x, pool) => (.ok x, m.put p pool x [x] data)
  | none => (.error (.idInUse (id?.getD 0)), m)

/-- Writing over the blob at an allocated id; any other id is added with the blob. -/
def update (x : Nat) (data : List UInt8) : Except FileError Unit × BlobModel :=
  if m.pool.Allocated x then (.ok (), m.put p m.pool x (m.slots x) data)
  else ((m.add p data (some x)).1.map fun _ => (), (m.add p data (some x)).2)

/-- Deleting the blob at an allocated id releases its slots, first slot first, and answers
whether the id was allocated. -/
def delete (x : Nat) : Bool × BlobModel :=
  if m.pool.Allocated x then
    (true, ⟨m.pool.releaseAll (m.slots x), Function.update m.slots x [], Function.update m.blobs x none⟩)
  else (false, m)

/-- Room for a blob of `len` bytes written under `id?`, or under a free id, `p` bytes to a slot:
the ids it may take, past `latest` and past the id asked for, fit an eight-byte link. -/
def Room (id? : Option Nat) (len : Nat) : Prop :=
  max m.pool.latest (id?.getD 0) + slotCount p len < Nat.pow 256 8

instance (id? : Option Nat) (len : Nat) : Decidable (m.Room p id? len) :=
  inferInstanceAs (Decidable (_ < _))

variable {m p}

/-- A blob added under no id asked for goes in under the id the pool hands out next. -/
theorem add_none (data : List UInt8) :
    m.add p data none = (.ok m.pool.next.1, m.put p m.pool.next.2 m.pool.next.1 [m.pool.next.1] data) := rfl

@[simp] theorem blobs_put (pool : IdPool) (x : Nat) (L : List Nat) (data : List UInt8) :
    (m.put p pool x L data).blobs = Function.update m.blobs x (some data) := rfl

/-- Deleting takes out the blob at an allocated id. -/
theorem blobs_delete (x : Nat) :
    (m.delete x).2.blobs = if m.pool.Allocated x then Function.update m.blobs x none else m.blobs := by
  unfold delete
  split_ifs <;> rfl

/-- Room for a blob under a free id is room for it under any id up to `latest`. -/
theorem Room.some_of_le {len : Nat} (h : m.Room p none len) {x : Nat} (hx : x ≤ m.pool.latest) :
    m.Room p (some x) len := by
  unfold Room at h ⊢
  rw [Option.getD_none, Nat.max_zero] at h
  rw [Option.getD_some, Nat.max_eq_left hx]
  exact h

/-- Room for a blob under a free id bounds the id the pool hands out next. -/
theorem Room.next_lt {len : Nat} (h : m.Room p none len) (hv : m.pool.Valid) : m.pool.next.1 < Nat.pow 256 8 := by
  have hone : 1 ≤ slotCount p len := le_max_left _ _
  have hle : m.pool.next.1 ≤ m.pool.next.2.latest := hv.next.2.2.2.2.1
  have hnext := IdPool.latest_next_le m.pool
  unfold Room at h
  rw [Option.getD_none, Nat.max_zero] at h
  omega

/-- Rewriting the blob at an allocated id puts the new bytes there. -/
theorem blobs_update {x : Nat} (ha : m.pool.Allocated x) (data : List UInt8) :
    (m.update p x data).2.blobs = Function.update m.blobs x (some data) := by
  simp only [update, if_pos ha, blobs_put]

end BlobModel

namespace BlobFile

variable {d : Disk} {f f' : BlobFile} {S : Nat → List Nat} {M : Nat → Option (List UInt8)} {m : BlobModel}

/-- A blob file over `d` stands for the model `m`: it holds the model's blobs in the model's
slots, and its allocator stands for the model's pool. -/
structure Models (d : Disk) (f : BlobFile) (m : BlobModel) : Prop where
  holds : f.Holds d m.slots m.blobs
  pool : f.core.allocator.pool = m.pool

/-- `f'` is the blob file `f` after an operation: on the same store, with the same layout. -/
structure Same (f f' : BlobFile) : Prop where
  layout : f'.core.layout = f.core.layout
  store : f'.core.store = f.core.store

theorem Same.refl (f : BlobFile) : Same f f := ⟨rfl, rfl⟩

theorem Same.trans {f₁ f₂ f₃ : BlobFile} (h₁ : Same f₁ f₂) (h₂ : Same f₂ f₃) : Same f₁ f₃ :=
  ⟨h₂.layout.trans h₁.layout, h₂.store.trans h₁.store⟩

theorem Same.sid {f₁ f₂ : BlobFile} (h : Same f₁ f₂) : f₂.core.sid = f₁.core.sid :=
  congrArg StoreRef.store h.store

/-! ## The invariant under changes of the cache -/

/-- Two files on one store with one layout read the same chain at an id whose cache entry and
slots agree. -/
theorem chainAt_congr {S' : Nat → List Nat} (hsid : f'.core.sid = f.core.sid)
    (hlayout : f'.core.layout = f.core.layout) {x : Nat}
    (hr : f'.records[x]? = f.records[x]?) (hS : S' x = S x) : f'.chainAt d S' x = f.chainAt d S x := by
  simp only [chainAt, hr, hS, hsid, hlayout]

/-- The invariant reads the cache only through the chains the file reads, and the cached ones. -/
theorem Holds.recache (h : f.Holds d S M) (hcore : f'.core = f.core)
    (hchain : ∀ x, S x ≠ [] → f'.chainAt d S x = f.chainAt d S x)
    (hcached : ∀ x c, f'.records[x]? = some c →
      c.map ChunkSlot.id = S x ∧ c ≠ [] ∧ ∀ b ∈ c, b.Sound f.core.layout d f.core.sid b.id) :
    f'.Holds d S M := by
  refine ⟨⟨hcore ▸ h.splits.core, hcore ▸ h.splits.parts⟩, hcore ▸ h.opened, hcore ▸ h.layout,
    fun x c hc => hcore ▸ hcached x c hc, fun x => ?_, h.first, fun x hx => hchain x hx ▸ h.linked x hx,
    fun x hx => ?_⟩
  · by_cases hx : S x = []
    · rw [h.blobs x, if_pos hx, if_pos hx]
    · rw [h.blobs x, if_neg hx, if_neg hx, hchain x hx]
  · rw [hchain x hx, hcore]
    exact h.count x hx

/-- A slot made anew, taken for slot `i`, is slot `i` and sound over any store. -/
theorem sound_create {l : Layout} {i : Nat} {b : ChunkSlot} (hc : ChunkSlot.create l i [] = .ok b) (s : Nat) :
    b.Sound l d s b.id := by
  obtain ⟨hs, -, hid⟩ := (ChunkSlot.Sound.fresh l i d s).of_setData hc
  rw [hid]
  exact hs

/-- Putting a written chain under its id: the file holds the blob it holds there, in its slots,
with the allocator that stands for the split. -/
theorem Holds.insert (h : f.Holds d S M) {x : Nat} {a : Allocator} {c : Chain}
    {records : Std.TreeMap Nat Chain}
    (hsplit : Splits d (f.withAllocator a) (Function.update S x (c.map ChunkSlot.id)))
    (hrec : ∀ y, records[y]? = if x = y then some c else f.records[y]?)
    (hne : c ≠ []) (hsound : ∀ b ∈ c, b.Sound f.core.layout d f.core.sid b.id) (hlinked : c.Linked)
    (hfirst : (c.map ChunkSlot.id).head? = some x)
    (hcount : c.length = slotCount (ChunkSlot.payloadCapacity f.core.layout) c.data.length) :
    Holds d ⟨{ f.core with allocator := a }, records⟩ (Function.update S x (c.map ChunkSlot.id))
      (Function.update M x (some c.data)) := by
  have hmap : c.map ChunkSlot.id ≠ [] := by simpa using hne
  -- the new file reads the new chain at `x`, and every other chain as before
  have hchain : ∀ y, (⟨{ f.core with allocator := a }, records⟩ : BlobFile).chainAt d
      (Function.update S x (c.map ChunkSlot.id)) y = if x = y then c else f.chainAt d S y := fun y => by
    by_cases hy : x = y
    · subst hy
      rw [if_pos rfl]
      exact chainAt_of_cached (by rw [hrec, if_pos rfl])
    · rw [if_neg hy]
      exact chainAt_congr (by rfl) (by rfl) (by rw [hrec, if_neg hy]) (Function.update_of_ne (Ne.symm hy) _ _)
  refine ⟨⟨hsplit.core, hsplit.parts⟩, h.opened, h.layout, fun y c' hc' => ?_, fun y => ?_, fun y hy => ?_,
    fun y hy => ?_, fun y hy => ?_⟩
  · rw [hrec] at hc'
    by_cases hy : x = y
    · subst hy
      rw [if_pos rfl, Option.some.injEq] at hc'
      subst hc'
      exact ⟨by rw [Function.update_self], hne, hsound⟩
    · rw [if_neg hy] at hc'
      rw [Function.update_of_ne (Ne.symm hy)]
      exact h.cached y c' hc'
  · rw [hchain y]
    by_cases hy : x = y
    · subst hy
      simp [hmap]
    · rw [if_neg hy, Function.update_of_ne (Ne.symm hy), Function.update_of_ne (Ne.symm hy)]
      exact h.blobs y
  · by_cases hxy : x = y
    · subst hxy
      rwa [Function.update_self]
    · rw [Function.update_of_ne (Ne.symm hxy)] at hy ⊢
      exact h.first y hy
  · rw [hchain y]
    by_cases hxy : x = y
    · rwa [if_pos hxy]
    · rw [if_neg hxy]
      rw [Function.update_of_ne (Ne.symm hxy)] at hy
      exact h.linked y hy
  · rw [hchain y]
    by_cases hxy : x = y
    · subst hxy
      rw [if_pos rfl, Function.update_self, List.length_map]
      exact hcount
    · rw [if_neg hxy, Function.update_of_ne (Ne.symm hxy)]
      rw [Function.update_of_ne (Ne.symm hxy)] at hy
      exact h.count y hy

/-- Taking a blob out of the cache for good, its slots released: the file holds the other blobs. -/
theorem Holds.erase (h : f.Holds d S M) {x : Nat} {a : Allocator}
    (hsplit : Splits d (f.withAllocator a) (Function.update S x []))
    {records : Std.TreeMap Nat Chain} (hrec : ∀ y, records[y]? = if x = y then none else f.records[y]?) :
    Holds d ⟨{ f.core with allocator := a }, records⟩ (Function.update S x []) (Function.update M x none) := by
  have hchain : ∀ y, x ≠ y → (⟨{ f.core with allocator := a }, records⟩ : BlobFile).chainAt d
      (Function.update S x []) y = f.chainAt d S y := fun y hy =>
    chainAt_congr (by rfl) (by rfl) (by rw [hrec, if_neg hy]) (Function.update_of_ne (Ne.symm hy) _ _)
  -- an id that still starts a blob is not `x`
  have hne : ∀ y, Function.update S x [] y ≠ [] → x ≠ y ∧ S y ≠ [] := fun y hy => by
    by_cases hxy : x = y
    · subst hxy
      exact absurd (Function.update_self x [] S) hy
    · exact ⟨hxy, by rwa [Function.update_of_ne (Ne.symm hxy)] at hy⟩
  refine ⟨⟨hsplit.core, hsplit.parts⟩, h.opened, h.layout, fun y c' hc' => ?_, fun y => ?_, fun y hy => ?_,
    fun y hy => ?_, fun y hy => ?_⟩
  · rw [hrec] at hc'
    by_cases hxy : x = y
    · rw [if_pos hxy] at hc'
      cases hc'
    · rw [if_neg hxy] at hc'
      rw [Function.update_of_ne (Ne.symm hxy)]
      exact h.cached y c' hc'
  · by_cases hxy : x = y
    · subst hxy
      simp
    · rw [Function.update_of_ne (Ne.symm hxy), Function.update_of_ne (Ne.symm hxy), hchain y hxy]
      exact h.blobs y
  · obtain ⟨hxy, hSy⟩ := hne y hy
    rw [Function.update_of_ne (Ne.symm hxy)]
    exact h.first y hSy
  · obtain ⟨hxy, hSy⟩ := hne y hy
    rw [hchain y hxy]
    exact h.linked y hSy
  · obtain ⟨hxy, hSy⟩ := hne y hy
    rw [hchain y hxy, Function.update_of_ne (Ne.symm hxy)]
    exact h.count y hSy

/-! ## Each operation, as the model runs it -/

/-- Every step that makes or changes a slot of a chain keeps it sound at its own id, so a
rewritten chain of sound slots is sound. -/
theorem sound_of_write {c c' : Chain} {l : Layout} {s : Nat}
    (hQ : ∀ Q : ChunkSlot → Prop, (∀ b ∈ c, Q b) → (∀ i b, ChunkSlot.create l i [] = .ok b → Q b) →
      (∀ b bs b', Q b → b.setData bs = .ok b' → Q b') → (∀ b v, Q b → Q (b.setNext v)) → ∀ b ∈ c', Q b)
    (hc : ∀ b ∈ c, b.Sound l d s b.id) : ∀ b ∈ c', b.Sound l d s b.id :=
  hQ (fun b => b.Sound l d s b.id) hc (fun _ _ hb => sound_create hb s)
    (fun _ _ _ hb hset => by
      obtain ⟨hs, -, hid⟩ := hb.of_setData hset
      rw [hid]
      exact hs)
    (fun _ v hb => hb.setNext v)

/-- Caching a blob's chain as the file reads it keeps the invariant. -/
theorem Holds.cache (h : f.Holds d S M) {x : Nat} (hx : S x ≠ []) (hcore : f'.core = f.core)
    (hrec : ∀ y, f'.records[y]? = if x = y then some (f.chainAt d S x) else f.records[y]?) : f'.Holds d S M := by
  have hchain : ∀ y, f'.chainAt d S y = f.chainAt d S y := fun y => by
    by_cases hy : x = y
    · subst hy
      exact chainAt_of_cached (by rw [hrec, if_pos rfl])
    · exact chainAt_congr (by rw [hcore]) (by rw [hcore]) (by rw [hrec, if_neg hy]) rfl
  refine h.recache hcore (fun y _ => hchain y) fun y c hc => ?_
  rw [hrec] at hc
  by_cases hy : x = y
  · subst hy
    rw [if_pos rfl, Option.some.injEq] at hc
    subst hc
    refine ⟨h.ids_chainAt x, fun hnil => hx ?_, h.sound_chainAt x⟩
    rw [← h.ids_chainAt x, hnil, List.map_nil]
  · rw [if_neg hy] at hc
    exact h.cached y c hc

theorem Models.room (h : f.Models d m) {id? : Option Nat} {len : Nat} :
    f.Room id? len ↔ m.Room (ChunkSlot.payloadCapacity f.core.layout) id? len := by
  unfold Room BlobModel.Room
  rw [← h.pool]
  exact Iff.rfl

/-- Claiming the id a new blob starts at follows the pool: the id it takes, which no blob holds,
with room after it for the blob's slots; or, for an id the pool refuses, `idInUse`. -/
theorem Holds.claim (h : f.Holds d S M) {id? : Option Nat} {len : Nat} (hroom : f.Room id? len) :
    (∀ x pool, f.core.allocator.pool.take id? = some (x, pool) →
      ∃ a, onCore (BlockFile.claim id?) (d, f) = .ok x (d, f.withAllocator a) ∧ a.pool = pool ∧ S x = [] ∧
        Splits d (f.withAllocator a) (Function.update S x [x]) ∧
        a.latest.value + slotCount (ChunkSlot.payloadCapacity f.core.layout) len ≤ Nat.pow 256 8) ∧
    (f.core.allocator.pool.take id? = none →
      ∃ y, id? = some y ∧ onCore (BlockFile.claim id?) (d, f) = .error (.idInUse y) (d, f)) := by
  have hn : 1 ≤ slotCount (ChunkSlot.payloadCapacity f.core.layout) len := le_max_left _ _
  have hlatest : f.core.latest = f.core.allocator.pool.latest := rfl
  unfold Room at hroom
  rw [hlatest] at hroom
  -- the room leaves a next id, and bounds the id asked for
  have hnext : id? = none → f.core.allocator.pool.free = [] → f.core.allocator.pool.latest + 1 < Nat.pow 256 8 :=
    fun hid _ => by
      subst hid
      rw [Option.getD_none, Nat.max_zero] at hroom
      omega
  have hlt : ∀ y, id? = some y → y < Nat.pow 256 8 := fun y hy => by
    subst hy
    have := le_max_right f.core.allocator.pool.latest y
    rw [Option.getD_some] at hroom
    omega
  obtain ⟨htaken, hrefused⟩ := h.splits.core.claim id? hnext hlt
  refine ⟨fun x pool ht => ?_, fun ht => ?_⟩
  · obtain ⟨a, hclaim, hpool, hholds⟩ := htaken x pool ht
    obtain ⟨hnot, -, -, hin⟩ := h.splits.core.allocator.valid.take ht
    have hSx : S x = [] := h.eq_nil hnot
    refine ⟨a, FileOp.zoom_ok hclaim, hpool, hSx, ⟨h.splits.core.withAllocator hholds, ?_⟩, ?_⟩
    · show a.pool.Parts _
      rw [← hpool] at hin
      have := h.splits.parts.append hnot hin x
      rwa [hSx, List.nil_append] at this
    · have := IdPool.latest_take_le ht
      rw [← hpool, Allocator.latest_pool] at this
      omega
  · obtain ⟨y, hy, hclaim⟩ := hrefused ht
    exact ⟨y, hy, FileOp.zoom_error hclaim⟩

/-- Adding a blob answers as the model does: under the id the pool takes, the blob written in a
chain starting there; or, for an id the pool refuses, `idInUse` with nothing changed. -/
theorem Models.add (h : f.Models d m) {data : List UInt8} {id? : Option Nat}
    (hroom : m.Room (ChunkSlot.payloadCapacity f.core.layout) id? data.length) :
    ∃ f', FileOp.outcome (BlobFile.add data id? (d, f)) =
        ((m.add (ChunkSlot.payloadCapacity f.core.layout) data id?).1, (d, f')) ∧
      f'.Models d (m.add (ChunkSlot.payloadCapacity f.core.layout) data id?).2 ∧ f.Same f' := by
  have hlt : ChunkSlot.payloadCapacity f.core.layout < Nat.pow 256 4 := h.holds.splits.core.payloadCapacity_lt
  obtain ⟨htaken, hrefused⟩ := h.holds.claim (h.room.mpr hroom)
  rw [h.pool] at htaken hrefused
  cases ht : m.pool.take id? with
  | none =>
    obtain ⟨y, rfl, hrun⟩ := hrefused ht
    have hadd : BlobFile.add data (some y) (d, f) = .error (.idInUse y) (d, f) := by
      unfold BlobFile.add
      rw [FileOp.bind_ok (ensureOpen_eq h.holds.opened), FileOp.bind_error hrun]
    refine ⟨f, ?_, by simpa only [BlobModel.add, ht] using h, Same.refl f⟩
    rw [hadd, FileOp.outcome_error]
    simp only [BlobModel.add, ht, Option.getD_some]
  | some xp =>
    obtain ⟨x, pool⟩ := xp
    obtain ⟨a, hrun, hpool, -, hsplit, hroom₂⟩ := htaken x pool ht
    -- the blob's first slot is its id; writing the blob takes the rest
    obtain ⟨b, hb, hbid, hsized, -⟩ := ChunkSlot.create_nil f.core.layout x
    obtain ⟨a', c', hw, hsplit', -, hdata', hlen', hhead', hre, hlinks, hQ⟩ :=
      write_eq hsplit (x := x) (c := [b]) (by rw [Function.update_self, List.map_singleton, hbid])
        (List.cons_ne_nil _ _) (by simpa using hsized) h.holds.payload_pos hlt data hroom₂
    rw [withAllocator_withAllocator, Function.update_idem] at hsplit'
    simp only [layout_withAllocator] at hlen' hre hQ
    have hre' : rechain (ChunkSlot.payloadCapacity f.core.layout) pool [x] data.length =
        (c'.map ChunkSlot.id, a'.pool) := by
      rw [hre, show (f.withAllocator a).core.allocator.pool = pool from hpool, List.map_singleton, hbid]
    have hadd : BlobFile.add data id? (d, f) = .ok x (d, ⟨{ f.core with allocator := a' }, f.records.insert x c'⟩) := by
      unfold BlobFile.add
      rw [FileOp.bind_ok (ensureOpen_eq h.holds.opened), FileOp.bind_ok hrun]
      simp only [bind, EStateM.bind, FileOp.self, layout_withAllocator, hb]
      rw [hw]
      rfl
    refine ⟨⟨{ f.core with allocator := a' }, f.records.insert x c'⟩, ?_, ⟨?_, ?_⟩, ⟨rfl, rfl⟩⟩
    · rw [hadd, FileOp.outcome_ok]
      simp only [BlobModel.add, ht]
    · simp only [BlobModel.add, ht, BlobModel.put, hre']
      rw [← hdata']
      exact h.holds.insert hsplit' (fun y => FreeChain.getElem?_insert_nat _ _ _ _)
        (List.ne_nil_of_length_pos (by rw [hlen']; unfold slotCount; omega))
        (sound_of_write hQ (by simpa using sound_create hb f.core.sid)) hlinks
        (by rw [hhead']; simp [hbid]) (by rw [hlen', hdata'])
    · simp only [BlobModel.add, ht, BlobModel.put, hre']

/-- Reading the blob at an id that starts one, or is not allocated, answers the model's blob. -/
theorem Models.get (h : f.Models d m) {x : Nat} (hx : m.pool.Allocated x → (m.blobs x).isSome) :
    ∃ f', BlobFile.get x (d, f) = .ok (m.blobs x) (d, f') ∧ f'.Models d m ∧ f'.core = f.core := by
  by_cases ha : m.pool.Allocated x
  · have hSx : m.slots x ≠ [] := fun hnil => by
      have := hx ha
      rw [h.holds.eq_none hnil] at this
      cases this
    obtain ⟨f₁, htake, hcore, hrec⟩ := h.holds.take hSx
    refine ⟨{ f₁ with records := f₁.records.insert x (f.chainAt d m.slots x) }, ?_, ⟨?_, ?_⟩, hcore⟩
    · unfold BlobFile.get
      rw [FileOp.bind_ok (ensureOpen_eq h.holds.opened)]
      simp only [bind, EStateM.bind, FileOp.self, isAllocated_eq, h.pool, ha, decide_true, Bool.not_true,
        Bool.false_eq_true, if_false, htake, putBack_eq, h.holds.eq_some hSx]
      rfl
    · refine h.holds.cache hSx hcore fun y => ?_
      show (f₁.records.insert x _)[y]? = _
      rw [FreeChain.getElem?_insert_nat, hrec]
      by_cases hy : x = y <;> simp [hy]
    · show f₁.core.allocator.pool = m.pool
      rw [hcore]
      exact h.pool
  · have hnone : m.blobs x = none := h.holds.eq_none (h.holds.eq_nil (by rw [h.pool]; exact ha))
    refine ⟨f, ?_, h, rfl⟩
    unfold BlobFile.get
    rw [FileOp.bind_ok (ensureOpen_eq h.holds.opened)]
    simp only [bind, EStateM.bind, FileOp.self, isAllocated_eq, h.pool, ha, decide_false, Bool.not_false,
      if_true, hnone]
    rfl

/-- Rewriting the blob at an id that starts one, or is not allocated, runs as the model: the
blob's chain rewritten over its own slots, or the blob added under the id. -/
theorem Models.update (h : f.Models d m) {x : Nat} {data : List UInt8}
    (hx : m.pool.Allocated x → (m.blobs x).isSome)
    (hroom : m.Room (ChunkSlot.payloadCapacity f.core.layout) (some x) data.length) :
    ∃ f', FileOp.outcome (BlobFile.update x data (d, f)) =
        ((m.update (ChunkSlot.payloadCapacity f.core.layout) x data).1, (d, f')) ∧
      f'.Models d (m.update (ChunkSlot.payloadCapacity f.core.layout) x data).2 ∧ f.Same f' := by
  by_cases ha : m.pool.Allocated x
  · have hSx : m.slots x ≠ [] := fun hnil => by
      have := hx ha
      rw [h.holds.eq_none hnil] at this
      cases this
    obtain ⟨⟨core₁, rec₁⟩, htake, hcore, hrec⟩ := h.holds.take hSx
    obtain rfl : core₁ = f.core := hcore
    have hlt : ChunkSlot.payloadCapacity f.core.layout < Nat.pow 256 4 := h.holds.splits.core.payloadCapacity_lt
    have hroom₂ : f.core.latest + slotCount (ChunkSlot.payloadCapacity f.core.layout) data.length ≤ Nat.pow 256 8 := by
      have := (h.room.mpr hroom)
      unfold Room at this
      rw [Option.getD_some] at this
      have := le_max_left f.core.latest x
      omega
    have hne : f.chainAt d m.slots x ≠ [] := fun hnil => hSx (by rw [← h.holds.ids_chainAt x, hnil, List.map_nil])
    obtain ⟨a, c', hw, hsplit', -, hdata', hlen', hhead', hre, hlinks, hQ⟩ :=
      write_eq (f := ⟨f.core, rec₁⟩) ⟨h.holds.splits.core, h.holds.splits.parts⟩ (h.holds.ids_chainAt x).symm hne
        (fun b hb => (h.holds.sound_chainAt x b hb).sized) h.holds.payload_pos hlt data hroom₂
    have hre' : rechain (ChunkSlot.payloadCapacity f.core.layout) m.pool (m.slots x) data.length =
        (c'.map ChunkSlot.id, a.pool) := by
      rw [← h.pool, ← h.holds.ids_chainAt x]
      exact hre.symm
    refine ⟨⟨{ f.core with allocator := a }, rec₁.insert x c'⟩, ?_, ⟨?_, ?_⟩, ⟨rfl, rfl⟩⟩
    · have hupd : BlobFile.update x data (d, f) = .ok () (d, ⟨{ f.core with allocator := a }, rec₁.insert x c'⟩) := by
        unfold BlobFile.update
        rw [FileOp.bind_ok (ensureOpen_eq h.holds.opened)]
        simp only [bind, EStateM.bind, FileOp.self, isAllocated_eq, h.pool, ha, decide_true, Bool.not_true,
          Bool.false_eq_true, if_false, htake]
        rw [hw]
        rfl
      rw [hupd, FileOp.outcome_ok]
      simp only [BlobModel.update, if_pos ha]
    · simp only [BlobModel.update, if_pos ha, BlobModel.put, hre']
      rw [← hdata']
      refine h.holds.insert ⟨hsplit'.core, hsplit'.parts⟩ (fun y => ?_) (List.ne_nil_of_length_pos
          (by rw [hlen']; unfold slotCount; omega))
        (sound_of_write hQ (h.holds.sound_chainAt x)) hlinks
        (by rw [hhead', h.holds.ids_chainAt x]; exact h.holds.first x hSx) (by rw [hlen', hdata'])
      rw [FreeChain.getElem?_insert_nat]
      show _ = if x = y then some c' else f.records[y]?
      by_cases hy : x = y
      · rw [if_pos hy, if_pos hy]
      · rw [if_neg hy, if_neg hy, hrec, if_neg hy]
    · simp only [BlobModel.update, if_pos ha, BlobModel.put, hre']
  · -- an id that is not allocated is added with the blob
    have hrun : BlobFile.update x data (d, f) = (discard (BlobFile.add data (some x)) : BlobOp Unit) (d, f) := by
      unfold BlobFile.update
      rw [FileOp.bind_ok (ensureOpen_eq h.holds.opened)]
      simp only [bind, EStateM.bind, FileOp.self, isAllocated_eq, h.pool, ha, decide_false, Bool.not_false,
        if_true]
    obtain ⟨f', hadd, hm, hsame⟩ := h.add hroom
    refine ⟨f', ?_, by simpa only [BlobModel.update, if_neg ha] using hm, hsame⟩
    rw [hrun, FileOp.outcome_discard, hadd]
    simp only [BlobModel.update, if_neg ha]

/-- Deleting at an id that starts a blob, or is not allocated, answers as the model: the blob's
slots are released, first slot first. -/
theorem Models.delete (h : f.Models d m) {x : Nat} (hx : m.pool.Allocated x → (m.blobs x).isSome) :
    ∃ f', BlobFile.delete x (d, f) = .ok (m.delete x).1 (d, f') ∧ f'.Models d (m.delete x).2 ∧ f.Same f' := by
  by_cases ha : m.pool.Allocated x
  · have hSx : m.slots x ≠ [] := fun hnil => by
      have := hx ha
      rw [h.holds.eq_none hnil] at this
      cases this
    obtain ⟨⟨core₁, rec₁⟩, htake, hcore, hrec⟩ := h.holds.take hSx
    obtain rfl : core₁ = f.core := hcore
    obtain ⟨a, hrel, hpool, hsplit'⟩ := releaseChain_eq (f := ⟨f.core, rec₁⟩) x (f.chainAt d m.slots x)
      ⟨h.holds.splits.core, h.holds.splits.parts⟩ (h.holds.ids_chainAt x).symm
    rw [h.holds.ids_chainAt x] at hpool
    refine ⟨⟨{ f.core with allocator := a }, rec₁⟩, ?_, ⟨?_, ?_⟩, ⟨rfl, rfl⟩⟩
    · unfold BlobFile.delete
      rw [FileOp.bind_ok (ensureOpen_eq h.holds.opened)]
      simp only [bind, EStateM.bind, FileOp.self, isAllocated_eq, h.pool, ha, decide_true, Bool.not_true,
        Bool.false_eq_true, if_false, htake, BlobModel.delete]
      rw [hrel]
      rfl
    · simp only [BlobModel.delete, if_pos ha]
      exact h.holds.erase ⟨hsplit'.core, hsplit'.parts⟩ hrec
    · simp only [BlobModel.delete, if_pos ha]
      show a.pool = _
      rw [hpool, h.pool]
  · refine ⟨f, ?_, by simpa only [BlobModel.delete, if_neg ha] using h, Same.refl f⟩
    unfold BlobFile.delete
    rw [FileOp.bind_ok (ensureOpen_eq h.holds.opened)]
    simp only [bind, EStateM.bind, FileOp.self, isAllocated_eq, h.pool, ha, decide_false, Bool.not_false,
      if_true, BlobModel.delete]
    rfl

/-- The pool of a model a file stands for is valid. -/
theorem Models.valid (h : f.Models d m) : m.pool.Valid := by
  rw [← h.pool]
  exact h.holds.splits.core.allocator.valid

/-- An id the pool does not hold has no blob. -/
theorem Models.eq_none (h : f.Models d m) {x : Nat} (hx : ¬ m.pool.Allocated x) : m.blobs x = none :=
  h.holds.eq_none (h.holds.eq_nil (by rw [h.pool]; exact hx))

theorem Models.allocated_of_isSome (h : f.Models d m) {x : Nat} (hx : (m.blobs x).isSome) : m.pool.Allocated x := by
  by_contra hna
  rw [h.eq_none hna] at hx
  cases hx

/-- Asking whether an id is allocated reads the model's pool. -/
theorem Models.contains (h : f.Models d m) (x : Nat) : f.contains x = decide (m.pool.Allocated x) := by
  rw [BlobFile.contains, isAllocated_eq, h.pool]

end BlobFile

end ColumnDb.Blob
