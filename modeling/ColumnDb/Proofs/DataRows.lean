import Mathlib
import ColumnDb.Proofs.ChunkFlush
import ColumnDb.Proofs.ValueCodec
import ColumnDb.Data.File

/-!
# A data file as a map of values

A data file keeps one value per row, each in the slot whose id is the row id. `DataFile.Holds d f
M` says that the file `f`, over the disk `d`, holds the values of the map `M`: its file part is
open and true to its store, the allocated ids are exactly those `M` has a value for, and the slot
the file reads for each row, cached or stored, decodes to the row's value. Every cached slot is
sound, so that a flush writes it back.

Against that map every operation is a map operation: adding stores a value under the id the pool
hands out or under the id asked for, updating replaces the value of a live row and adds any other,
deleting removes the row, reading looks it up, and a flush writes the file back without changing
the map. The store of a flushed file opens again as a file holding the same map with the same
pool.

Claiming an id is shared by every slot file; `IdPool.take` is its model and
`BlockFile.Holds.claim` says that the allocator follows it.
-/

set_option autoImplicit false

namespace ColumnDb.Slot

open ColumnDb.Disk

namespace FileOp

variable {σ τ α : Type} {get : σ → τ} {put : σ → τ → σ} {m : FileOp τ α} {d d' : Disk} {s : σ} {c : τ}

theorem zoom_ok {a : α} (h : m (d, get s) = .ok a (d', c)) :
    FileOp.zoom get put m (d, s) = .ok a (d', put s c) := by
  simp only [FileOp.zoom, h]

theorem zoom_error {e : FileError} (h : m (d, get s) = .error e (d', c)) :
    FileOp.zoom get put m (d, s) = .error e (d', put s c) := by
  simp only [FileOp.zoom, h]

end FileOp

namespace IdPool

/-- The id a claim takes and the pool after it: the next id under `none`; under `some x`, the id
`x` when the pool can take it. -/
def take (p : IdPool) : Option Nat → Option (Nat × IdPool)
  | none => some p.next
  | some x => (p.claim x).map fun p' => (x, p')

variable {p p' : IdPool} {id? : Option Nat} {x : Nat}

/-- An id taken was not allocated and is not 0; the pool stays valid and gains exactly that id. -/
theorem Valid.take (hv : p.Valid) (h : p.take id? = some (x, p')) :
    ¬ p.Allocated x ∧ 0 < x ∧ p'.Valid ∧ ∀ k, p'.Allocated k ↔ p.Allocated k ∨ k = x := by
  cases id? with
  | none =>
    obtain ⟨rfl, rfl⟩ : p.next.1 = x ∧ p.next.2 = p' := Prod.mk.inj (Option.some.inj h)
    obtain ⟨hv', -, hfresh, hin⟩ := hv.next
    exact ⟨hfresh, hin.1, hv', allocated_next hv⟩
  | some y =>
    obtain ⟨q, hq, hyq⟩ := Option.map_eq_some_iff.mp h
    obtain ⟨rfl, rfl⟩ := Prod.mk.inj hyq
    have hne : ¬ (y = 0 ∨ p.Allocated y) := fun hor => by
      rw [← claim_eq_none] at hor
      rw [hor] at hq
      cases hq
    exact ⟨fun ha => hne (.inr ha), Nat.pos_of_ne_zero fun h0 => hne (.inl h0), (hv.claim hq).1,
      allocated_claim hv hq⟩

end IdPool

namespace BlockFile

variable {d : Disk} {f : BlockFile}

/-- Claiming an id on a file part true to its store follows the pool's `take`: the id it takes,
with an allocator standing for the pool after; or `idInUse` with nothing changed. -/
theorem Holds.claim (h : f.Holds d) (id? : Option Nat)
    (hroom : id? = none → f.allocator.pool.free = [] → f.allocator.pool.latest + 1 < Nat.pow 256 8)
    (hlt : ∀ x, id? = some x → x < Nat.pow 256 8) :
    (∀ x p, f.allocator.pool.take id? = some (x, p) →
      ∃ a, BlockFile.claim id? (d, f) = .ok x (d, { f with allocator := a }) ∧ a.pool = p ∧
        a.Holds f.layout d f.sid) ∧
    (f.allocator.pool.take id? = none →
      ∃ x, id? = some x ∧ BlockFile.claim id? (d, f) = .error (.idInUse x) (d, f)) := by
  cases id? with
  | none =>
    obtain ⟨hpair, hholds⟩ := h.allocator.nextFreeId fun hf => hroom rfl (by simpa using hf)
    refine ⟨fun x p hxp => ?_, fun hn => by cases hn⟩
    obtain ⟨hx, hp⟩ := Prod.mk.inj (hpair.trans (Option.some.inj hxp))
    exact ⟨_, by rw [claim_none_eq, nextFreeId_eq, hx], hp, hholds⟩
  | some y =>
    obtain ⟨hmap, hkeep⟩ := h.allocator.tryUse (hlt y rfl)
    rw [claim_some_eq]
    cases ha : f.allocator.tryUse d f.sid y with
    | none =>
      have hpool : f.allocator.pool.take (some y) = none := by
        simp only [IdPool.take, ← hmap, ha, Option.map_none]
      exact ⟨fun x p hxp => (by rw [hpool] at hxp; cases hxp), fun _ => ⟨y, rfl, rfl⟩⟩
    | some a =>
      have hpool : f.allocator.pool.take (some y) = some (y, a.pool) := by
        simp only [IdPool.take, ← hmap, ha, Option.map_some]
      refine ⟨fun x p hxp => ?_, fun hn => by rw [hpool] at hn; cases hn⟩
      obtain ⟨rfl, rfl⟩ := Prod.mk.inj (Option.some.inj (hpool.symm.trans hxp))
      exact ⟨a, rfl, rfl, hkeep a ha⟩

theorem isAllocated_iff_pool (f : BlockFile) (k : Nat) : f.isAllocated k = true ↔ f.allocator.pool.Allocated k :=
  Allocator.isAllocated_iff _ _

/-- A slot's payload has fewer bytes than a four-byte length counts. -/
theorem Holds.payloadCapacity_lt (h : f.Holds d) : ChunkSlot.payloadCapacity f.layout < Nat.pow 256 4 := by
  have hfits : f.capacity.value < Nat.pow 256 f.capacity.width := h.fits
  rw [h.value_eq, h.width_eq] at hfits
  unfold ChunkSlot.payloadCapacity
  omega

end BlockFile

end ColumnDb.Slot

namespace ColumnDb.Data

open ColumnDb.Slot ColumnDb.Disk

namespace DataFile

variable {d : Disk} {f : DataFile} {M : Nat → Option Value}

/-- The slot a data file reads for a row: the cached slot, or else the store's. -/
def slotAt (d : Disk) (f : DataFile) (k : Nat) : ChunkSlot :=
  (f.records[k]?).getD (ChunkSlot.load d f.core.sid f.core.layout k)

/-- A data file over `d` holds the values of `M`: its file part is open and true to its store,
with the data header and room for the chunk header; the allocated ids are those `M` has a value
for; each row's slot decodes to the row's value; and every cached slot is sound and allocated. -/
structure Holds (d : Disk) (f : DataFile) (M : Nat → Option Value) : Prop where
  core : f.core.Holds d
  opened : f.core.disposed = false
  layout : f.core.layout.header = dataHeader ∧ chunkHeader < f.core.layout.capacity
  allocated : ∀ k, f.core.isAllocated k = true ↔ (M k).isSome
  decodes : ∀ k v, M k = some v → f.kind.decode (f.slotAt d k).data = .ok v
  cached : ∀ k r, f.records[k]? = some r → r.Sound f.core.layout d f.core.sid k ∧ f.core.isAllocated k = true

theorem Holds.pool_allocated (h : f.Holds d M) (k : Nat) : f.core.allocator.pool.Allocated k ↔ (M k).isSome :=
  (BlockFile.isAllocated_iff_pool f.core k).symm.trans (h.allocated k)

theorem Holds.eq_none (h : f.Holds d M) {k : Nat} (hk : f.core.isAllocated k = false) : M k = none := by
  cases hM : M k with
  | none => rfl
  | some v => exact absurd ((h.allocated k).mpr (by rw [hM]; rfl)) (by rw [hk]; decide)

theorem ensureOpen_eq (h : f.core.disposed = false) :
    (onCore BlockFile.ensureOpen : DataOp Unit) (d, f) = .ok () (d, f) := by
  simp [onCore, FileOp.zoom, BlockFile.ensureOpen, bind, EStateM.bind, FileOp.self, h, pure, EStateM.pure]

theorem slotAt_of_cached {k : Nat} {r : ChunkSlot} (h : f.records[k]? = some r) : f.slotAt d k = r := by
  simp [slotAt, h]

theorem slotAt_of_uncached {k : Nat} (h : f.records[k]? = none) :
    f.slotAt d k = ChunkSlot.load d f.core.sid f.core.layout k := by
  simp [slotAt, h]

/-- Reading a row's slot answers the slot the file reads there, and caches it. -/
theorem record_eq (k : Nat) :
    ∃ f', DataFile.record k (d, f) = .ok (f.slotAt d k) (d, f') ∧ f'.core = f.core ∧ f'.kind = f.kind ∧
      ∀ j, f'.records[j]? = if j = k then some (f.slotAt d k) else f.records[j]? := by
  cases hk : f.records[k]? with
  | some r =>
    refine ⟨f, ?_, rfl, rfl, fun j => ?_⟩
    · simp [DataFile.record, bind, EStateM.bind, FileOp.self, hk, slotAt_of_cached hk, pure, EStateM.pure]
    · by_cases hj : j = k
      · subst hj
        rw [if_pos rfl, hk, slotAt_of_cached hk]
      · rw [if_neg hj]
  | none =>
    refine ⟨{ f with records := f.records.insert k (ChunkSlot.load d f.core.sid f.core.layout k) }, ?_, rfl, rfl,
      fun j => ?_⟩
    · simp [DataFile.record, bind, EStateM.bind, FileOp.self, FileOp.disk, FileOp.modify, hk,
        slotAt_of_uncached hk, pure, EStateM.pure]
    · rw [FreeChain.getElem?_insert_nat, slotAt_of_uncached hk]
      by_cases hj : j = k
      · rw [if_pos hj.symm, if_pos hj]
      · rw [if_neg (Ne.symm hj), if_neg hj]

/-- The invariant reads the cache only through the slots the file reads and the cached ones. -/
theorem Holds.recache {f' : DataFile} (h : f.Holds d M) (hcore : f'.core = f.core) (hkind : f'.kind = f.kind)
    (hslot : ∀ k, (M k).isSome → f'.slotAt d k = f.slotAt d k)
    (hcached : ∀ k r, f'.records[k]? = some r → r.Sound f.core.layout d f.core.sid k ∧ f.core.isAllocated k = true) :
    f'.Holds d M := by
  refine ⟨hcore ▸ h.core, hcore ▸ h.opened, hcore ▸ h.layout, fun k => hcore ▸ h.allocated k, fun k v hv => ?_,
    fun k r hr => hcore ▸ hcached k r hr⟩
  rw [hslot k (by rw [hv]; rfl), hkind]
  exact h.decodes k v hv

/-- The slot the file reads for a live row is sound. -/
theorem Holds.slot_sound (h : f.Holds d M) (x : Nat) : (f.slotAt d x).Sound f.core.layout d f.core.sid x := by
  cases hc : f.records[x]? with
  | some r₀ =>
    rw [slotAt_of_cached hc]
    exact (h.cached x r₀ hc).1
  | none =>
    rw [slotAt_of_uncached hc]
    exact ChunkSlot.Sound.load d _ _ x h.layout.2.le

/-- Reading a live row's slot caches it and keeps the file holding the map. -/
theorem Holds.record (h : f.Holds d M) {x : Nat} (hx : f.core.isAllocated x = true) :
    ∃ f₁, DataFile.record x (d, f) = .ok (f.slotAt d x) (d, f₁) ∧ f₁.Holds d M ∧ f₁.core = f.core ∧
      f₁.kind = f.kind ∧ ∀ k, f₁.records[k]? = if k = x then some (f.slotAt d x) else f.records[k]? := by
  obtain ⟨f₁, hrun, hcore, hkind, hrec⟩ := record_eq (d := d) (f := f) x
  have hslot : ∀ k, f₁.slotAt d k = f.slotAt d k := fun k => by
    by_cases hk : k = x
    · subst hk
      rw [slotAt_of_cached (by rw [hrec, if_pos rfl])]
    · unfold slotAt
      rw [hrec, if_neg hk, hcore]
  refine ⟨f₁, hrun, h.recache hcore hkind (fun k _ => hslot k) fun k r hr => ?_, hcore, hkind, hrec⟩
  rw [hrec] at hr
  by_cases hk : k = x
  · subst hk
    rw [if_pos rfl, Option.some.injEq] at hr
    subst hr
    exact ⟨h.slot_sound k, hx⟩
  · rw [if_neg hk] at hr
    exact h.cached k r hr

/-- Reading a row answers its value in the map, and keeps the file holding the map. -/
theorem Holds.get (h : f.Holds d M) (x : Nat) :
    ∃ f', DataFile.get x (d, f) = .ok (M x) (d, f') ∧ f'.Holds d M ∧ f'.core = f.core ∧ f'.kind = f.kind := by
  by_cases hx : f.core.isAllocated x = true
  · obtain ⟨v, hv⟩ := Option.isSome_iff_exists.mp ((h.allocated x).mp hx)
    obtain ⟨f₁, hrun, h₁, hcore, hkind, -⟩ := h.record hx
    refine ⟨f₁, ?_, h₁, hcore, hkind⟩
    unfold DataFile.get
    rw [FileOp.bind_ok (ensureOpen_eq h.opened)]
    simp only [bind, EStateM.bind, FileOp.self, hx, Bool.not_true, Bool.false_eq_true, if_false]
    rw [hrun]
    simp only [h.decodes x v hv, hv, pure, EStateM.pure]
  · refine ⟨f, ?_, h, rfl, rfl⟩
    unfold DataFile.get
    rw [FileOp.bind_ok (ensureOpen_eq h.opened)]
    simp only [bind, EStateM.bind, FileOp.self, Bool.eq_false_iff.mpr hx, Bool.not_false, if_true,
      h.eq_none (Bool.eq_false_iff.mpr hx), pure, EStateM.pure]

/-! ## Adding -/

/-- A value too large for a slot is refused, and nothing changes. -/
theorem Holds.add_tooLarge (h : f.Holds d M) {v : Value}
    (hlen : ChunkSlot.payloadCapacity f.core.layout < v.encode.length) (id? : Option Nat) :
    DataFile.add v id? (d, f) =
      .error (.slot (.tooLarge v.encode.length (ChunkSlot.payloadCapacity f.core.layout))) (d, f) := by
  unfold DataFile.add
  rw [FileOp.bind_ok (ensureOpen_eq h.opened)]
  simp only [bind, EStateM.bind, FileOp.self, gt_iff_lt, hlen, if_true, FileOp.fail]

/-- A given id the pool cannot take is refused, and nothing changes. -/
theorem Holds.add_taken (h : f.Holds d M) {v : Value}
    (hlen : v.encode.length ≤ ChunkSlot.payloadCapacity f.core.layout) {x : Nat} (hx : x < Nat.pow 256 8)
    (ht : f.core.allocator.pool.take (some x) = none) :
    DataFile.add v (some x) (d, f) = .error (.idInUse x) (d, f) := by
  obtain ⟨y, hy, hclaim⟩ := (h.core.claim (some x) (fun h => by cases h) fun y hy => by
    cases hy
    exact hx).2 ht
  cases hy
  have hrun : (onCore (BlockFile.claim (some x)) : DataOp Nat) (d, f) = .error (.idInUse x) (d, f) :=
    FileOp.zoom_error hclaim
  unfold DataFile.add
  rw [FileOp.bind_ok (ensureOpen_eq h.opened)]
  simp only [bind, EStateM.bind, FileOp.self, gt_iff_lt, not_lt.mpr hlen, if_false]
  rw [hrun]

/-- A value of the file's kind that lies in it and fits a slot goes in under the id the pool
takes: the file then holds the map with that row, and its allocator stands for the pool after. -/
theorem Holds.add_ok (h : f.Holds d M) {v : Value} (hkind : v.kind = f.kind) (hfits : v.Fits)
    (hlen : v.encode.length ≤ ChunkSlot.payloadCapacity f.core.layout) {id? : Option Nat}
    (hroom : id? = none → f.core.allocator.pool.free = [] → f.core.allocator.pool.latest + 1 < Nat.pow 256 8)
    (hlt : ∀ x, id? = some x → x < Nat.pow 256 8) {x : Nat} {p : IdPool}
    (ht : f.core.allocator.pool.take id? = some (x, p)) :
    ∃ a f', DataFile.add v id? (d, f) = .ok x (d, f') ∧ f'.Holds d (Function.update M x (some v)) ∧
      f'.core = { f.core with allocator := a } ∧ a.pool = p ∧ f'.kind = f.kind := by
  obtain ⟨a, hclaim, hpool, hholds⟩ := (h.core.claim id? hroom hlt).1 x p ht
  obtain ⟨hfresh, -, -, hin⟩ := h.core.allocator.valid.take ht
  rw [← hpool] at hin
  have hrun : (onCore (BlockFile.claim id?) : DataOp Nat) (d, f) =
      .ok x (d, { f with core := { f.core with allocator := a } }) := FileOp.zoom_ok hclaim
  obtain ⟨r, hr, hsound, hdata, -⟩ := ChunkSlot.create_ok f.core.layout x hlen h.core.payloadCapacity_lt
  have halloc : ∀ k, ({ f.core with allocator := a } : BlockFile).isAllocated k = true ↔
      f.core.isAllocated k = true ∨ k = x := fun k => by
    rw [BlockFile.isAllocated_iff_pool, BlockFile.isAllocated_iff_pool]
    exact hin k
  have hget : ∀ k, (f.records.insert x r)[k]? = if x = k then some r else f.records[k]? :=
    fun k => FreeChain.getElem?_insert_nat _ _ _ _
  refine ⟨a, ⟨{ f.core with allocator := a }, f.kind, f.records.insert x r⟩, ?_,
    ⟨h.core.withAllocator hholds, h.opened, h.layout, fun k => ?_, fun k w hw => ?_, fun k r' hr' => ?_⟩,
    rfl, hpool, rfl⟩
  · unfold DataFile.add
    rw [FileOp.bind_ok (ensureOpen_eq h.opened)]
    simp only [bind, EStateM.bind, FileOp.self, gt_iff_lt, not_lt.mpr hlen, if_false]
    rw [hrun]
    simp only [hr]
    rfl
  · rw [halloc, h.allocated k, Function.update_apply]
    by_cases hk : k = x
    · simp [hk]
    · simp [hk]
  · by_cases hk : k = x
    · subst hk
      rw [Function.update_self, Option.some.injEq] at hw
      subst hw
      rw [slotAt_of_cached (by rw [hget, if_pos rfl]), hdata, show f.kind = v.kind from hkind.symm]
      exact Value.decode_encode hfits
    · rw [Function.update_of_ne hk] at hw
      have hslot : (⟨{ f.core with allocator := a }, f.kind, f.records.insert x r⟩ : DataFile).slotAt d k =
          f.slotAt d k := by
        unfold slotAt
        rw [hget, if_neg (Ne.symm hk)]
        rfl
      rw [hslot]
      exact h.decodes k w hw
  · rw [hget] at hr'
    by_cases hk : x = k
    · subst hk
      rw [if_pos rfl, Option.some.injEq] at hr'
      subst hr'
      exact ⟨hsound d _, (halloc x).mpr (.inr rfl)⟩
    · rw [if_neg hk] at hr'
      obtain ⟨hs, hk'⟩ := h.cached k r' hr'
      exact ⟨hs, (halloc k).mpr (.inl hk')⟩

/-- Adding a value of the file's kind that lies in it and fits a slot: it goes in under an id that
held no row, the one asked for if any; or the id asked for is 0 or holds a row, and it is refused
with nothing changed. -/
theorem Holds.add_eq (h : f.Holds d M) {v : Value} (hkind : v.kind = f.kind) (hfits : v.Fits)
    (hlen : v.encode.length ≤ ChunkSlot.payloadCapacity f.core.layout) {id? : Option Nat}
    (hroom : id? = none → f.core.allocator.pool.free = [] → f.core.allocator.pool.latest + 1 < Nat.pow 256 8)
    (hlt : ∀ x, id? = some x → x < Nat.pow 256 8) :
    (∃ x f', DataFile.add v id? (d, f) = .ok x (d, f') ∧ 0 < x ∧ M x = none ∧ (id? = none ∨ id? = some x) ∧
        f'.Holds d (Function.update M x (some v)) ∧ f'.kind = f.kind ∧ f'.core.layout = f.core.layout) ∨
      (∃ x, id? = some x ∧ (x = 0 ∨ (M x).isSome) ∧ DataFile.add v id? (d, f) = .error (.idInUse x) (d, f)) := by
  cases ht : f.core.allocator.pool.take id? with
  | some xp =>
    obtain ⟨x, p⟩ := xp
    obtain ⟨a, f', hrun, hholds, hcore, -, hk⟩ := h.add_ok hkind hfits hlen hroom hlt ht
    obtain ⟨hfresh, hx0, -, -⟩ := h.core.allocator.valid.take ht
    -- the id taken is the one asked for, if any
    have hid : id? = none ∨ id? = some x := by
      cases id? with
      | none => exact .inl rfl
      | some y =>
        obtain ⟨q, -, hyq⟩ := Option.map_eq_some_iff.mp ht
        exact .inr (congrArg some (Prod.mk.inj hyq).1)
    have hM : M x = none := Option.not_isSome_iff_eq_none.mp fun hs => hfresh ((h.pool_allocated x).mpr hs)
    exact .inl ⟨x, f', hrun, hx0, hM, hid, hholds, hk, by rw [hcore]⟩
  | none =>
    cases id? with
    | none => cases ht
    | some x =>
      have hc : f.core.allocator.pool.claim x = none := Option.map_eq_none_iff.mp ht
      have hx := (IdPool.claim_eq_none x).mp hc
      rw [h.pool_allocated] at hx
      exact .inr ⟨x, rfl, hx, h.add_taken hlen (hlt x rfl) ht⟩

/-! ## Updating and deleting -/

/-- Updating an id that is not allocated adds it. -/
theorem update_not_live (hopen : f.core.disposed = false) {x : Nat} (hx : f.core.isAllocated x = false) (v : Value) :
    DataFile.update x v (d, f) = (discard (DataFile.add v (some x)) : DataOp Unit) (d, f) := by
  unfold DataFile.update
  rw [FileOp.bind_ok (ensureOpen_eq hopen)]
  simp only [bind, EStateM.bind, FileOp.self, hx, Bool.not_false, if_true]

/-- Updating a live row with a value of the file's kind that fits a slot replaces its value. -/
theorem Holds.update_live (h : f.Holds d M) {x : Nat} (hx : f.core.isAllocated x = true) {v : Value}
    (hkind : v.kind = f.kind) (hfits : v.Fits) (hlen : v.encode.length ≤ ChunkSlot.payloadCapacity f.core.layout) :
    ∃ f', DataFile.update x v (d, f) = .ok () (d, f') ∧ f'.Holds d (Function.update M x (some v)) ∧
      f'.core = f.core ∧ f'.kind = f.kind := by
  obtain ⟨f₁, hrun, -, hcore, hkind₁, hrec⟩ := h.record hx
  obtain ⟨b, hb, hbs, hdata, -⟩ := (h.slot_sound x).setData hlen h.core.payloadCapacity_lt
  have hget : ∀ k, (f₁.records.insert x b)[k]? = if k = x then some b else f.records[k]? := fun k => by
    rw [FreeChain.getElem?_insert_nat, hrec]
    by_cases hk : k = x
    · rw [if_pos hk.symm, if_pos hk]
    · rw [if_neg (Ne.symm hk), if_neg hk, if_neg hk]
  refine ⟨{ f₁ with records := f₁.records.insert x b }, ?_,
    ⟨hcore ▸ h.core, hcore ▸ h.opened, hcore ▸ h.layout, fun k => ?_, fun k w hw => ?_, fun k r hr => ?_⟩,
    hcore, hkind₁⟩
  · unfold DataFile.update
    rw [FileOp.bind_ok (ensureOpen_eq h.opened)]
    simp only [bind, EStateM.bind, FileOp.self, hx, Bool.not_true, Bool.false_eq_true, if_false]
    rw [hrun]
    simp only [hb, FileOp.modify]
  · rw [hcore, h.allocated k, Function.update_apply]
    by_cases hk : k = x
    · subst hk
      simp only [if_true, Option.isSome_some, iff_true]
      exact (h.allocated k).mp hx
    · rw [if_neg hk]
  · show f₁.kind.decode (slotAt d { f₁ with records := f₁.records.insert x b } k).data = .ok w
    by_cases hk : k = x
    · subst hk
      rw [Function.update_self, Option.some.injEq] at hw
      subst hw
      rw [slotAt_of_cached (by rw [hget, if_pos rfl]), hdata, hkind₁, show f.kind = v.kind from hkind.symm]
      exact Value.decode_encode hfits
    · rw [Function.update_of_ne hk] at hw
      have hslot : slotAt d { f₁ with records := f₁.records.insert x b } k = f.slotAt d k := by
        unfold slotAt
        rw [hget, if_neg hk]
        show _ = (f.records[k]?).getD (ChunkSlot.load d f.core.sid f.core.layout k)
        rw [hcore]
      rw [hslot, hkind₁]
      exact h.decodes k w hw
  · show r.Sound f₁.core.layout d f₁.core.sid k ∧ f₁.core.isAllocated k = true
    rw [hcore]
    change (f₁.records.insert x b)[k]? = some r at hr
    rw [hget] at hr
    by_cases hk : k = x
    · subst hk
      rw [if_pos rfl, Option.some.injEq] at hr
      subst hr
      exact ⟨hbs, hx⟩
    · rw [if_neg hk] at hr
      exact h.cached k r hr

/-- A value too large for a live row's slot is refused; the file still holds the map. -/
theorem Holds.update_tooLarge (h : f.Holds d M) {x : Nat} (hx : f.core.isAllocated x = true) {v : Value}
    (hlen : ChunkSlot.payloadCapacity f.core.layout < v.encode.length) :
    ∃ f', DataFile.update x v (d, f) =
        .error (.slot (.tooLarge v.encode.length (ChunkSlot.payloadCapacity f.core.layout))) (d, f') ∧
      f'.Holds d M ∧ f'.core = f.core ∧ f'.kind = f.kind := by
  obtain ⟨f₁, hrun, h₁, hcore, hkind, -⟩ := h.record hx
  have hset : (f.slotAt d x).setData v.encode =
      .error (.tooLarge v.encode.length (ChunkSlot.payloadCapacity f.core.layout)) := by
    have hcap := (h.slot_sound x).payload_capacity
    simp only [ChunkSlot.setData, Window.update, hcap, gt_iff_lt, hlen, if_true, bind, Except.bind]
  refine ⟨f₁, ?_, h₁, hcore, hkind⟩
  unfold DataFile.update
  rw [FileOp.bind_ok (ensureOpen_eq h.opened)]
  simp only [bind, EStateM.bind, FileOp.self, hx, Bool.not_true, Bool.false_eq_true, if_false]
  rw [hrun]
  simp only [hset, FileOp.fail]

/-- Deleting a row takes it out of the map and gives its id back to the pool; deleting an id that
is not allocated changes nothing. Either way it answers whether the row was there. -/
theorem Holds.delete (h : f.Holds d M) (x : Nat) :
    ∃ f', DataFile.delete x (d, f) = .ok (M x).isSome (d, f') ∧ f'.Holds d (Function.update M x none) ∧
      f'.core = { f.core with allocator := f.core.allocator.release d f.core.sid x } ∧ f'.kind = f.kind := by
  obtain ⟨hpool, hholds⟩ := h.core.allocator.release x
  by_cases hx : f.core.isAllocated x = true
  · have hget : ∀ k, (f.records.erase x)[k]? = if x = k then none else f.records[k]? :=
      fun k => FreeChain.getElem?_erase_nat _ _ _
    have halloc : ∀ k, ({ f.core with allocator := f.core.allocator.release d f.core.sid x } : BlockFile).isAllocated k =
        true ↔ f.core.isAllocated k = true ∧ k ≠ x := fun k => by
      rw [BlockFile.isAllocated_iff_pool, BlockFile.isAllocated_iff_pool, hpool]
      exact IdPool.allocated_release x k
    refine ⟨⟨{ f.core with allocator := f.core.allocator.release d f.core.sid x }, f.kind, f.records.erase x⟩, ?_,
      ⟨h.core.withAllocator hholds, h.opened, h.layout, fun k => ?_, fun k w hw => ?_, fun k r hr => ?_⟩,
      rfl, rfl⟩
    · unfold DataFile.delete
      rw [FileOp.bind_ok (ensureOpen_eq h.opened)]
      simp only [bind, EStateM.bind, FileOp.self, hx, Bool.not_true, Bool.false_eq_true, if_false,
        FileOp.modify, (h.allocated x).mp hx]
      rfl
    · rw [halloc, h.allocated k, Function.update_apply]
      by_cases hk : k = x
      · simp [hk]
      · simp [hk]
    · have hk : k ≠ x := fun hk => by
        subst hk
        rw [Function.update_self] at hw
        cases hw
      rw [Function.update_of_ne hk] at hw
      have hslot : (⟨{ f.core with allocator := f.core.allocator.release d f.core.sid x }, f.kind,
          f.records.erase x⟩ : DataFile).slotAt d k = f.slotAt d k := by
        unfold slotAt
        rw [hget, if_neg (Ne.symm hk)]
        rfl
      rw [hslot]
      exact h.decodes k w hw
    · rw [hget] at hr
      by_cases hk : x = k
      · rw [if_pos hk] at hr
        cases hr
      · rw [if_neg hk] at hr
        obtain ⟨hs, hk'⟩ := h.cached k r hr
        exact ⟨hs, (halloc k).mpr ⟨hk', Ne.symm hk⟩⟩
  · have hM := h.eq_none (Bool.eq_false_iff.mpr hx)
    have hrel : f.core.allocator.release d f.core.sid x = f.core.allocator := by
      simp [Allocator.release, show f.core.allocator.isAllocated x = false from Bool.eq_false_iff.mpr hx]
    have hupd : Function.update M x none = M := Function.update_eq_self_iff.mpr hM.symm
    refine ⟨f, ?_, by rw [hupd]; exact h, by rw [hrel], rfl⟩
    unfold DataFile.delete
    rw [FileOp.bind_ok (ensureOpen_eq h.opened)]
    simp only [bind, EStateM.bind, FileOp.self, Bool.eq_false_iff.mpr hx, Bool.not_false, if_true, hM,
      Option.isSome_none, pure, EStateM.pure]

/-! ## Flushing -/

/-- Writing back every cached slot, each inside its own slot: the file, its cache emptied, holds the
map over the new store. -/
theorem Holds.writeBack (h : f.Holds d M) :
    ({ f with records := ∅ } : DataFile).Holds (f.records.foldl (fun d _ r => (r.flush d f.core.sid).2) d) M := by
  have hcap : chunkHeader ≤ f.core.layout.capacity := h.layout.2.le
  have hs : f.core.sid < d.stores.size := h.core.store
  rw [Std.TreeMap.foldl_eq_foldl_toList]
  have hmem : ∀ x ∈ f.records.toList, f.records[x.1]? = some x.2 :=
    fun x hx => Std.TreeMap.mem_toList_iff_getElem?_eq_some.mp hx
  have hwx : ∀ d' (x : Nat × ChunkSlot), x ∈ f.records.toList →
      Disk.Within d' (x.2.flush d' f.core.sid).2 (f.core.layout.InSlot f.core.sid x.1) :=
    fun d' x hx => ChunkSlot.within_flush (h.cached _ _ (hmem x hx)).1.toShaped
      (h.cached _ _ (hmem x hx)).1.payload_fits hcap d' _
  have hw := Disk.within_foldl (fun d (x : Nat × ChunkSlot) => (x.2.flush d f.core.sid).2)
    (fun x => f.core.layout.InSlot f.core.sid x.1) _ hwx d
  have hdisj : f.records.toList.Pairwise fun x y => ∀ u i, f.core.layout.InSlot f.core.sid x.1 u i →
      ¬ f.core.layout.InSlot f.core.sid y.1 u i :=
    (Std.TreeMap.distinct_keys_toList (t := f.records)).imp fun hne =>
      Layout.inSlot_disjoint (by simpa using hne)
  -- each cached slot, flushed at its turn, reads back clean at the end
  have hclean : ∀ x ∈ f.records.toList, x.2.clean.Sound f.core.layout
      (f.records.toList.foldl (fun d (x : Nat × ChunkSlot) => (x.2.flush d f.core.sid).2) d) f.core.sid x.1 :=
    Disk.foldl_flush _ (fun x => f.core.layout.InSlot f.core.sid x.1)
      (fun x d => x.2.Sound f.core.layout d f.core.sid x.1 ∧ f.core.sid < d.stores.size)
      (fun x d => x.2.clean.Sound f.core.layout d f.core.sid x.1) _ hwx
      (fun d' x _ ⟨h, hs'⟩ => ChunkSlot.Sound.flush h hs')
      (fun x _ => show Disk.Reads _ _ from fun d₀ d₀' hsize hbytes ⟨h, hs'⟩ =>
        ⟨ChunkSlot.reads_sound x.2 hcap d₀ d₀' hsize hbytes h, lt_of_lt_of_le hs' hsize⟩)
      (fun x _ => ChunkSlot.reads_sound x.2.clean hcap)
      hdisj d (fun x hx => ⟨(h.cached _ _ (hmem x hx)).1, hs⟩)
  generalize f.records.toList.foldl (fun d (x : Nat × ChunkSlot) => (x.2.flush d f.core.sid).2) d = d₁
    at hw hclean
  -- the writes fall in allocated slots, the file's own bytes
  have hcore : f.core.Holds d₁ := h.core.within hw.confined fun u i ⟨x, hx, hi⟩ => by
    refine ⟨hi.1, h.core.owns_of_inSlot ((BlockFile.isAllocated_iff_pool _ _).mp (h.cached _ _ (hmem x hx)).2) ?_⟩
    obtain ⟨rfl, h₁, h₂⟩ := hi
    exact ⟨rfl, h₁, h₂⟩
  refine ⟨hcore, h.opened, h.layout, h.allocated, fun k v hv => ?_, fun k r hr => by simp at hr⟩
  rw [slotAt_of_uncached (by simp)]
  show f.kind.decode (ChunkSlot.load d₁ f.core.sid f.core.layout k).data = .ok v
  cases hc : f.records[k]? with
  | some r =>
    have hx : (k, r) ∈ f.records.toList := Std.TreeMap.mem_toList_iff_getElem?_eq_some.mpr hc
    rw [ChunkSlot.load_of_clean (hclean _ hx) hcap, ChunkSlot.data_clean, ← slotAt_of_cached hc]
    exact h.decodes k v hv
  | none =>
    -- an uncached slot lies apart from every cached one, so no write reached it
    rw [ChunkSlot.load_within hw.confined (fun i hi ⟨x, hx, hx'⟩ => by
      have hne : x.1 ≠ k := fun he => by
        have := hmem x hx
        rw [he, hc] at this
        cases this
      exact Layout.inSlot_disjoint hne _ _ hx' hi) hcap, ← slotAt_of_uncached hc]
    exact h.decodes k v hv

/-- Flushing the file part of a file with an empty cache writes only the capacity cell and the
allocator's bytes: the file still holds the map, and its store opens again as the flushed part. -/
theorem Holds.flushCore (h : f.Holds d M) (hr : f.records = ∅) :
    ∃ d' c, (onCore BlockFile.flush : DataOp Unit) (d, f) = .ok () (d', { f with core := c }) ∧
      ({ f with core := c } : DataFile).Holds d' M ∧ c.allocator.pool = f.core.allocator.pool ∧
      c.layout = f.core.layout ∧ c.store = f.core.store ∧ c.label = f.core.label ∧ c.disposed = f.core.disposed ∧
      BlockFile.open d' f.core.store f.core.label dataHeader chunkHeader f.core.layout.capacity =
        .ok { c with created := false, disposed := false } := by
  obtain ⟨d', c, hflush, hholds, hpool, hlayout, hstore, hlabel, hreopen⟩ := h.core.flush
  have hflush' := hflush
  simp only [BlockFile.flush_eq, EStateM.Result.ok.injEq, Prod.mk.injEq, true_and] at hflush'
  obtain ⟨rfl, rfl⟩ := hflush'
  have hw := h.core.within_flush
  have hcap : chunkHeader ≤ f.core.layout.capacity := h.layout.2.le
  have hreopen' := hreopen chunkHeader h.layout.2
  rw [h.layout.1] at hreopen'
  refine ⟨_, _, FileOp.zoom_ok hflush, ⟨hholds, h.opened, h.layout, fun k => ?_, fun k v hv => ?_,
    fun k r hr' => by rw [hr] at hr'; simp at hr'⟩, hpool, hlayout, hstore, hlabel, rfl, hreopen'⟩
  · rw [BlockFile.isAllocated_iff_pool, hpool, ← BlockFile.isAllocated_iff_pool]
    exact h.allocated k
  · -- a live row's slot is the file's own, which the flush leaves alone
    have hk : f.core.isAllocated k = true := (h.allocated k).mpr (by rw [hv]; rfl)
    have hload : ChunkSlot.load _ f.core.sid f.core.layout k = ChunkSlot.load d f.core.sid f.core.layout k :=
      ChunkSlot.load_within hw.confined
      (fun i hi => h.core.not_flushed_of_owns (h.core.owns_of_inSlot ((BlockFile.isAllocated_iff_pool _ _).mp hk) hi))
      hcap
    have hun : f.records[k]? = none := by rw [hr]; simp
    rw [slotAt_of_uncached (by simp [hr])]
    show f.kind.decode (ChunkSlot.load _ f.core.sid f.core.layout k).data = .ok v
    rw [hload, ← slotAt_of_uncached hun]
    exact h.decodes k v hv

/-- A flush of a file holding a map succeeds: the file, its cache emptied, holds the map over the
new store with the same pool, and the store opens again as the flushed file part. -/
theorem Holds.flush (h : f.Holds d M) :
    ∃ d' f', DataFile.flush (d, f) = .ok () (d', f') ∧ f'.Holds d' M ∧ f'.records = ∅ ∧ f'.kind = f.kind ∧
      f'.core.allocator.pool = f.core.allocator.pool ∧ f'.core.layout = f.core.layout ∧
      f'.core.store = f.core.store ∧ f'.core.label = f.core.label ∧ f'.core.disposed = f.core.disposed ∧
      BlockFile.open d' f.core.store f.core.label dataHeader chunkHeader f.core.layout.capacity =
        .ok { f'.core with created := false, disposed := false } := by
  have hA := h.writeBack
  obtain ⟨d', c, hrun, hB, hpool, hlayout, hstore, hlabel, hdisp, hreopen⟩ := hA.flushCore rfl
  refine ⟨d', _, ?_, hB, rfl, rfl, hpool, hlayout, hstore, hlabel, hdisp, hreopen⟩
  unfold DataFile.flush
  rw [FileOp.bind_ok (ensureOpen_eq h.opened)]
  exact FileOp.bind_ok rfl |>.trans hrun

/-- The flags of the file part are read by no part of the invariant. -/
theorem Holds.reflag (h : f.Holds d M) (b : Bool) :
    ({ f with core := { f.core with created := b, disposed := false } } : DataFile).Holds d M :=
  ⟨{ h.core with }, rfl, h.layout, h.allocated, h.decodes, h.cached⟩

/-- A store whose data file was flushed opens again as that file, holding the same map. -/
theorem open_of_flushed (hr : f.records = ∅)
    (hreopen : BlockFile.open d f.core.store f.core.label dataHeader chunkHeader f.core.layout.capacity =
      .ok { f.core with created := false, disposed := false }) :
    DataFile.open d f.core.store f.core.label f.kind f.core.layout.capacity =
      .ok { f with core := { f.core with created := false, disposed := false } } := by
  unfold DataFile.open
  simp only [hreopen, bind, Except.bind, pure, Except.pure, ← hr]

/-- A data file opened on an empty store holds no row, with slots of `capacity - 12` payload
bytes. -/
theorem holds_open_new {store : StoreRef} {label : String} {kind : ValueKind} {capacity : Nat}
    (hcap : chunkHeader < capacity) (hcap' : capacity < Nat.pow 256 4) (hs : store.store < d.stores.size)
    (hempty : d.size store.store = 0) (hopen : DataFile.open d store label kind capacity = .ok f) :
    f.Holds d (fun _ => none) ∧ f.kind = kind ∧ ChunkSlot.payloadCapacity f.core.layout = capacity - chunkHeader := by
  unfold DataFile.open at hopen
  cases hc : BlockFile.open d store label dataHeader chunkHeader capacity with
  | error e =>
    rw [hc] at hopen
    cases hopen
  | ok core =>
    rw [hc] at hopen
    cases hopen
    obtain ⟨hholds, hlayout, -, -⟩ := BlockFile.holds_open (by decide) (by decide) hcap' hs hc
    -- the store is empty, so the file is new: nothing allocated, nothing cached
    have hnew : core.allocator = Allocator.create core.layout ∧ core.disposed = false := by
      unfold BlockFile.open at hc
      rw [if_neg (show ¬capacity ≤ chunkHeader by omega)] at hc
      simp only [hempty, beq_self_eq_true, if_true] at hc
      cases hc
      exact ⟨rfl, rfl⟩
    have hnone : ∀ k, core.isAllocated k = false := fun k => by
      simp [BlockFile.isAllocated, hnew.1, Allocator.isAllocated, Allocator.create, Cell.create]
    have hlay : core.layout.header = dataHeader ∧ chunkHeader < core.layout.capacity := by
      rw [hlayout]
      exact ⟨rfl, hcap⟩
    refine ⟨⟨hholds, hnew.2, hlay, fun k => ?_, fun k v hv => ?_, fun k r hr => ?_⟩, rfl, by rw [hlayout]; rfl⟩
    · simp [hnone k]
    · exact absurd hv (by simp)
    · simp at hr

end DataFile

end ColumnDb.Data
