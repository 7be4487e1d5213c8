import Mathlib
import ColumnDb.Proofs.Allocator
import ColumnDb.Slot.BlockFile

/-!
# A slot file's ids across a run

A slot file holds its capacity in bytes 8 to 12 and its allocator in the
first eight bytes and in the links of slot 0 and of the free slots. The file
itself writes its own header fields after byte 12 and the slots of allocated
ids; nothing else. `BlockFile.Holds` says the file is true to its store, and
every event keeps it: handing out, claiming or releasing an id, a flush, and
a write of the file's own bytes.

`IdEvent.runFile` runs a list of such events on a file and gathers what each
claim answers; `IdEvent.runPool` runs them on the pool alone. From a file
that opened, the two agree on every answer and on the pool at the end; the
pool stays valid and its `latest` never goes down; and a flush at any point
leaves a store that opens again as the flushed file.
-/

set_option autoImplicit false

namespace ColumnDb.Slot

open ColumnDb.Disk

/-- The bytes a slot file writes for itself: its header fields after the latest id and the
capacity, and the slots of allocated ids. -/
def IdPool.Owns (p : IdPool) (l : Layout) (i : Nat) : Prop :=
  12 ≤ i ∧ (i < l.header ∨ p.Allocated ((i - l.header) / l.capacity))

/-- A byte inside slot `id` belongs to slot `id`. -/
theorem Layout.slot_of_lt {l : Layout} {id i : Nat} (h₁ : l.offset id ≤ i) (h₂ : i < l.offset id + l.capacity) :
    (i - l.header) / l.capacity = id := by
  unfold Layout.offset at h₁ h₂
  exact Nat.div_eq_of_lt_le (by omega) (by rw [Nat.succ_mul]; omega)

/-- A byte a file owns is none of the allocator's bytes. -/
theorem Allocator.Holds.not_region_of_owns {a : Allocator} {l : Layout} {d : Disk} {s i : Nat}
    (h : a.Holds l d s) (hown : a.pool.Owns l i) : ¬ a.Region l s s i := by
  rintro (⟨-, hi⟩ | ⟨id, hid, -, h₁, h₂⟩)
  · have := hown.1
    omega
  · have hslot : (i - l.header) / l.capacity = id := by
      have hw : 8 ≤ l.capacity := h.layout_eq ▸ h.chain.wide
      exact Layout.slot_of_lt h₁ (by omega)
    rcases hown.2 with hlt | ⟨hpos, -, hfree⟩
    · unfold Layout.offset at h₁
      omega
    · rw [hslot] at hpos hfree
      rcases List.mem_cons.mp hid with rfl | hmem
      · exact Nat.lt_irrefl 0 hpos
      · exact hfree hmem

namespace BlockFile

/-- A slot file true to its store: the store exists, the allocator holds on it with the file's
layout, and the capacity cell, in bytes 8 to 12, holds the slot capacity. -/
structure Holds (f : BlockFile) (d : Disk) : Prop where
  store : f.sid < d.stores.size
  allocator : f.allocator.Holds f.layout d f.sid
  header : 12 ≤ f.layout.header
  offset_eq : f.capacity.offset = 8
  width_eq : f.capacity.width = 4
  value_eq : f.capacity.value = f.layout.capacity
  pos : 0 < f.layout.capacity
  fits : f.capacity.Fits
  trueTo : f.capacity.TrueTo d f.sid

variable {d : Disk} {f : BlockFile}

theorem Holds.withAllocator (h : f.Holds d) {a : Allocator} (ha : a.Holds f.layout d f.sid) :
    ({ f with allocator := a } : BlockFile).Holds d :=
  ⟨h.store, ha, h.header, h.offset_eq, h.width_eq, h.value_eq, h.pos, h.fits, h.trueTo⟩

/-- A file that opens holds on its store, with the layout it was opened with. -/
theorem holds_open {store : StoreRef} {label : String} {header slotHeader capacity : Nat}
    (hheader : 12 ≤ header) (hslot : 7 ≤ slotHeader) (hcap : capacity < Nat.pow 256 4)
    (hs : store.store < d.stores.size) (h : BlockFile.open d store label header slotHeader capacity = .ok f) :
    f.Holds d ∧ f.layout = ⟨header, capacity⟩ ∧ f.store = store ∧ f.label = label := by
  unfold BlockFile.open at h
  split at h
  · cases h
  next hbig =>
  have hwide : 8 ≤ capacity := by omega
  split at h
  · -- an empty store: a new file
    cases h
    refine ⟨⟨hs, Allocator.holds_create hwide (by simp; omega), by simp [hheader], rfl, rfl, ?_,
      by simp; omega, Cell.fits_create 8 4 capacity, fun hd => by cases hd⟩, rfl, rfl, rfl⟩
    simp [Cell.create, Nat.mod_eq_of_lt hcap]
  · dsimp only at h
    split at h
    · cases h
    next hstored =>
    split at h
    · cases h
    next a ha =>
    cases h
    have hvalue : (Cell.load d store.store 8 4).value = capacity := by simpa using hstored
    obtain ⟨hholds, -⟩ := Allocator.holds_open hwide (by simp; omega) ha
    exact ⟨⟨hs, hholds, hheader, rfl, rfl, hvalue, by simp; omega, Cell.fits_load _ _ _ _,
      Cell.trueTo_load _ _ _ _⟩, rfl, rfl, rfl⟩

/-- A file opens only with slots larger than their header. -/
theorem slotHeader_lt_of_open {store : StoreRef} {label : String} {header slotHeader capacity : Nat}
    (h : BlockFile.open d store label header slotHeader capacity = .ok f) : slotHeader < capacity := by
  unfold BlockFile.open at h
  split at h
  · cases h
  · omega

/-! ## Each operation -/

theorem nextFreeId_eq (d : Disk) (f : BlockFile) :
    BlockFile.nextFreeId (d, f) =
      .ok (f.allocator.nextFreeId d f.sid).1 (d, { f with allocator := (f.allocator.nextFreeId d f.sid).2 }) :=
  rfl

theorem claim_none_eq (d : Disk) (f : BlockFile) : BlockFile.claim none (d, f) = BlockFile.nextFreeId (d, f) :=
  rfl

/-- Claiming an id either takes it, or fails with `idInUse` and changes nothing. -/
theorem claim_some_eq (d : Disk) (f : BlockFile) (x : Nat) :
    BlockFile.claim (some x) (d, f) = match f.allocator.tryUse d f.sid x with
      | some a => .ok x (d, { f with allocator := a })
      | none => .error (.idInUse x) (d, f) := by
  cases ht : f.allocator.tryUse d f.sid x with
  | none =>
    simp only [BlockFile.claim, bind, EStateM.bind, FileOp.disk, FileOp.self, ht]
    rfl
  | some a =>
    simp only [BlockFile.claim, bind, EStateM.bind, FileOp.disk, FileOp.self, ht]
    rfl

theorem release_eq (d : Disk) (f : BlockFile) (x : Nat) :
    BlockFile.release x (d, f) = .ok () (d, { f with allocator := f.allocator.release d f.sid x }) :=
  rfl

theorem flush_eq (d : Disk) (f : BlockFile) :
    BlockFile.flush (d, f) = .ok ()
      ((f.allocator.flush (f.capacity.flush d f.sid).2 f.sid).2,
        { f with capacity := (f.capacity.flush d f.sid).1,
                 allocator := (f.allocator.flush (f.capacity.flush d f.sid).2 f.sid).1 }) :=
  rfl

/-- The capacity cell lies apart from the allocator's bytes. -/
theorem Holds.capacity_apart (h : f.Holds d) {i : Nat} (h₁ : 8 ≤ i) (h₂ : i < 12) :
    ¬ f.allocator.Region f.layout f.sid f.sid i := by
  rintro (⟨-, hi⟩ | ⟨id, -, -, hoff, -⟩)
  · omega
  · have := h.header
    unfold Layout.offset at hoff
    omega

/-- A flush succeeds, keeps the pool and the invariant, and leaves a store that opens again as
the flushed file. -/
theorem Holds.flush (h : f.Holds d) :
    ∃ d' f', BlockFile.flush (d, f) = .ok () (d', f') ∧ f'.Holds d' ∧
      f'.allocator.pool = f.allocator.pool ∧ f'.layout = f.layout ∧ f'.store = f.store ∧
      f'.label = f.label ∧ ∀ slotHeader, slotHeader < f.layout.capacity →
        BlockFile.open d' f.store f.label f.layout.header slotHeader f.layout.capacity =
          .ok { f' with created := false, disposed := false } := by
  -- the capacity cell first, in bytes 8 to 12
  have hw₁ : Disk.Within d (f.capacity.flush d f.sid).2 fun t i => t = f.sid ∧ 8 ≤ i ∧ i < 12 := by
    have := Cell.within_flush f.capacity d f.sid
    rwa [h.offset_eq, h.width_eq] at this
  have hs₁ : f.sid < (f.capacity.flush d f.sid).2.stores.size := hw₁.1 ▸ h.store
  have hstored₁ : f.capacity.stored (f.capacity.flush d f.sid).2 f.sid = f.capacity.value :=
    Cell.stored_flush h.store h.fits h.trueTo
  have ha₁ : f.allocator.Holds f.layout (f.capacity.flush d f.sid).2 f.sid :=
    h.allocator.within hw₁.confined fun t i hreg ⟨ht, h8, h12⟩ => by
      subst ht
      exact h.capacity_apart h8 h12 hreg
  -- then the allocator, away from the capacity cell
  obtain ⟨hw₂, hpool, ha₂, hopen⟩ := ha₁.flush hs₁
  have hstored₂ : f.capacity.stored (f.allocator.flush (f.capacity.flush d f.sid).2 f.sid).2 f.sid =
      f.capacity.value := by
    have hread := hw₂.confined.read_eq f.sid 8 4 fun i h₁ h₂ hreg => h.capacity_apart h₁ (by omega) hreg
    rw [← hstored₁]
    unfold Cell.stored
    rw [h.offset_eq, h.width_eq, hread]
  refine ⟨_, _, flush_eq d f, ⟨hw₂.1 ▸ hs₁, ha₂, h.header, by simp [Cell.flush_fst, h.offset_eq],
    by simp [Cell.flush_fst, h.width_eq], by simp [Cell.flush_fst, h.value_eq], h.pos,
    by simpa [Cell.flush_fst, Cell.Fits] using h.fits, fun _ => by rw [Cell.flush_fst]; exact hstored₂⟩,
    hpool, rfl, rfl, rfl, fun slotHeader hslot => ?_⟩
  -- reading the file back: its store is not empty, as the capacity is stored in it
  have hsize : 8 < (f.allocator.flush (f.capacity.flush d f.sid).2 f.sid).2.size f.store.store := by
    have hne : Bytes.readLE ((f.allocator.flush (f.capacity.flush d f.sid).2 f.sid).2.read f.sid 8 4) ≠ 0 := by
      have := hstored₂
      unfold Cell.stored at this
      rw [h.offset_eq, h.width_eq, h.value_eq] at this
      rw [this]
      exact Nat.ne_of_gt h.pos
    exact lt_size_of_readLE_ne_zero hne
  have hload : Cell.load (f.allocator.flush (f.capacity.flush d f.sid).2 f.sid).2 f.store.store 8 4 =
      (f.capacity.flush d f.sid).1 := by
    rw [Cell.flush_fst, ← h.offset_eq, ← h.width_eq]
    exact Cell.load_of_stored hstored₂
  unfold BlockFile.open
  dsimp only
  rw [if_neg (by omega), if_neg (by simp; omega), hload]
  simp only [Cell.flush_fst, h.value_eq, bne_self_eq_false, Bool.false_eq_true, if_false]
  have hopen' : Allocator.open (f.allocator.flush (f.capacity.flush d f.sid).2 f.sid).2 f.store.store
      ⟨f.layout.header, f.layout.capacity⟩ = .ok (f.allocator.flush (f.capacity.flush d f.sid).2 f.sid).1 :=
    hopen
  rw [hopen']

/-- A write of the file's own bytes keeps the invariant. -/
theorem Holds.write (h : f.Holds d) {off : Nat} {bs : List UInt8}
    (hown : ∀ k < bs.length, f.allocator.pool.Owns f.layout (off + k)) : f.Holds (d.write f.sid off bs) := by
  have hw := (Disk.within_write d f.sid off bs).confined
  have hinside : ∀ i, off ≤ i → i < off + bs.length → f.allocator.pool.Owns f.layout i := by
    intro i h₁ h₂
    have := hown (i - off) (by omega)
    rwa [Nat.add_sub_cancel' h₁] at this
  refine ⟨lt_of_lt_of_le h.store hw.1, h.allocator.within hw fun t i hreg ⟨ht, h₁, h₂⟩ => ?_, h.header, h.offset_eq,
    h.width_eq, h.value_eq, h.pos, h.fits, ?_⟩
  · subst ht
    exact h.allocator.not_region_of_owns (hinside i h₁ h₂) hreg
  · refine h.trueTo.within hw fun i h₁ h₂ ⟨_, h₃, h₄⟩ => ?_
    have := (hinside i h₃ h₄).1
    rw [h.offset_eq, h.width_eq] at h₂
    omega

end BlockFile

instance (p : IdPool) (l : Layout) (i : Nat) : Decidable (p.Owns l i) :=
  inferInstanceAs (Decidable (_ ∧ (_ ∨ _)))

/-- What happens to a slot file's ids: a claim of a given id or of any free one, a release, a
flush, or a write of the file's own bytes. -/
inductive IdEvent
  | claim (id? : Option Nat)
  | release (id : Nat)
  | flush
  | write (off : Nat) (bytes : List UInt8)
deriving DecidableEq, Repr

namespace IdEvent

/-- An event on the pool alone: what a claim answers, and the pool after. -/
def onPool : IdEvent → IdPool → Option (Except FileError Nat) × IdPool
  | .claim none, p => (some (.ok p.next.1), p.next.2)
  | .claim (some x), p =>
    match p.claim x with
    | some p' => (some (.ok x), p')
    | none => (some (.error (.idInUse x)), p)
  | .release x, p => (none, p.release x)
  | .flush, p => (none, p)
  | .write _ _, p => (none, p)

/-- An event on a file and its store: what a claim answers, and the store and file after. -/
def onFile : IdEvent → Disk × BlockFile → Option (Except FileError Nat) × (Disk × BlockFile)
  | .claim id?, st =>
    match BlockFile.claim id? st with
    | .ok x st' => (some (.ok x), st')
    | .error e st' => (some (.error e), st')
  | .release x, st =>
    match BlockFile.release x st with
    | .ok _ st' => (none, st')
    | .error _ st' => (none, st')
  | .flush, st =>
    match BlockFile.flush st with
    | .ok _ st' => (none, st')
    | .error _ st' => (none, st')
  | .write off bytes, (d, f) => (none, (d.write f.sid off bytes, f))

/-- What the program may do in a pool: ids are 64-bit numbers, the id after `latest` exists when
it is handed out, and the file writes only its own bytes. -/
def Allowed (l : Layout) (p : IdPool) : IdEvent → Prop
  | .claim none => p.free = [] → p.latest + 1 < Nat.pow 256 8
  | .claim (some x) => x < Nat.pow 256 8
  | .release _ => True
  | .flush => True
  | .write off bytes => ∀ k < bytes.length, p.Owns l (off + k)

instance decAllowed (l : Layout) (p : IdPool) : (e : IdEvent) → Decidable (e.Allowed l p)
  | .claim none => inferInstanceAs (Decidable (_ → _))
  | .claim (some _) => inferInstanceAs (Decidable (_ < _))
  | .release _ => inferInstanceAs (Decidable True)
  | .flush => inferInstanceAs (Decidable True)
  | .write _ _ => inferInstanceAs (Decidable (∀ k < _, _))

/-- Runs events on the pool, gathering the answers. -/
def runPool : List IdEvent → IdPool → List (Option (Except FileError Nat)) × IdPool
  | [], p => ([], p)
  | e :: es, p => ((e.onPool p).1 :: (runPool es (e.onPool p).2).1, (runPool es (e.onPool p).2).2)

/-- Runs events on a file and its store, gathering the answers. -/
def runFile : List IdEvent → Disk × BlockFile → List (Option (Except FileError Nat)) × (Disk × BlockFile)
  | [], st => ([], st)
  | e :: es, st => ((e.onFile st).1 :: (runFile es (e.onFile st).2).1, (runFile es (e.onFile st).2).2)

/-- Every event of a run is allowed in the pool it meets. -/
def AllowedRun (l : Layout) : IdPool → List IdEvent → Prop
  | _, [] => True
  | p, e :: es => e.Allowed l p ∧ AllowedRun l (e.onPool p).2 es

/-- Whether a run is allowed, by following it on the pool. -/
def decAllowedRun (l : Layout) : (p : IdPool) → (es : List IdEvent) → Decidable (AllowedRun l p es)
  | _, [] => inferInstanceAs (Decidable True)
  | p, e :: es =>
    have := decAllowedRun l (e.onPool p).2 es
    inferInstanceAs (Decidable (_ ∧ _))

instance (l : Layout) (p : IdPool) (es : List IdEvent) : Decidable (AllowedRun l p es) := decAllowedRun l p es

/-! ## On the pool -/

/-- An event keeps the pool valid and never lowers `latest`. -/
theorem valid_onPool {p : IdPool} (h : p.Valid) (e : IdEvent) :
    (e.onPool p).2.Valid ∧ p.latest ≤ (e.onPool p).2.latest := by
  cases e with
  | claim id? =>
    cases id? with
    | none => exact ⟨h.next.1, h.next.2.1⟩
    | some x =>
      simp only [onPool]
      split
      · next p' hc => exact ⟨(h.claim hc).1, (h.claim hc).2.1⟩
      · exact ⟨h, le_refl _⟩
  | release x => exact ⟨(h.release x).1, le_of_eq (h.release x).2.1.symm⟩
  | flush => exact ⟨h, le_refl _⟩
  | write _ _ => exact ⟨h, le_refl _⟩

theorem runPool_append (es₁ es₂ : List IdEvent) (p : IdPool) :
    (runPool (es₁ ++ es₂) p).2 = (runPool es₂ (runPool es₁ p).2).2 := by
  induction es₁ generalizing p with
  | nil => rfl
  | cons e es ih => exact ih _

/-- A run keeps the pool valid and never lowers `latest`. -/
theorem valid_runPool : ∀ (es : List IdEvent) {p : IdPool}, p.Valid →
    (runPool es p).2.Valid ∧ p.latest ≤ (runPool es p).2.latest
  | [], _, h => ⟨h, le_refl _⟩
  | e :: es, _, h =>
    have hstep := valid_onPool h e
    have hrest := valid_runPool es hstep.1
    ⟨hrest.1, le_trans hstep.2 hrest.2⟩

/-! ## On the file -/

variable {d : Disk} {f : BlockFile}

/-- One allowed event on a file answers as on its pool, keeps the invariant, and keeps the
file's layout, store and label. -/
theorem onFile_refines (h : f.Holds d) {e : IdEvent} (he : e.Allowed f.layout f.allocator.pool) :
    (e.onFile (d, f)).1 = (e.onPool f.allocator.pool).1 ∧
      (e.onFile (d, f)).2.2.allocator.pool = (e.onPool f.allocator.pool).2 ∧
      (e.onFile (d, f)).2.2.Holds (e.onFile (d, f)).2.1 ∧ (e.onFile (d, f)).2.2.layout = f.layout ∧
      (e.onFile (d, f)).2.2.store = f.store ∧ (e.onFile (d, f)).2.2.label = f.label := by
  cases e with
  | claim id? =>
    cases id? with
    | none =>
      obtain ⟨hpair, hholds⟩ := h.allocator.nextFreeId fun hms => he (by simpa using hms)
      have hrun : (claim none).onFile (d, f) = (some (.ok (f.allocator.nextFreeId d f.sid).1),
          (d, { f with allocator := (f.allocator.nextFreeId d f.sid).2 })) := rfl
      rw [hrun]
      refine ⟨?_, ?_, h.withAllocator hholds, rfl, rfl, rfl⟩
      · show some (Except.ok (f.allocator.nextFreeId d f.sid).1) = some (Except.ok f.allocator.pool.next.1)
        rw [← hpair]
      · show (f.allocator.nextFreeId d f.sid).2.pool = f.allocator.pool.next.2
        rw [← hpair]
    | some x =>
      obtain ⟨hmap, hkeep⟩ := h.allocator.tryUse (show x < Nat.pow 256 8 from he)
      cases ht : f.allocator.tryUse d f.sid x with
      | none =>
        -- a refused claim leaves the file as it was
        have hrun : (claim (some x)).onFile (d, f) = (some (.error (.idInUse x)), (d, f)) := by
          simp only [onFile, BlockFile.claim_some_eq, ht]
        have hpool : f.allocator.pool.claim x = none := by rw [← hmap, ht, Option.map_none]
        have hmodel : (claim (some x)).onPool f.allocator.pool =
            (some (.error (.idInUse x)), f.allocator.pool) := by
          simp only [onPool, hpool]
        rw [hrun, hmodel]
        exact ⟨rfl, rfl, h, rfl, rfl, rfl⟩
      | some a =>
        have hrun : (claim (some x)).onFile (d, f) = (some (.ok x), (d, { f with allocator := a })) := by
          simp only [onFile, BlockFile.claim_some_eq, ht]
        have hpool : f.allocator.pool.claim x = some a.pool := by rw [← hmap, ht, Option.map_some]
        have hmodel : (claim (some x)).onPool f.allocator.pool = (some (.ok x), a.pool) := by
          simp only [onPool, hpool]
        rw [hrun, hmodel]
        exact ⟨rfl, rfl, h.withAllocator (hkeep a ht), rfl, rfl, rfl⟩
  | release x =>
    obtain ⟨hpool, hholds⟩ := h.allocator.release x
    exact ⟨rfl, hpool, h.withAllocator hholds, rfl, rfl, rfl⟩
  | flush =>
    obtain ⟨d', f', hflush, hholds, hpool, hlayout, hstore, hlabel, -⟩ := h.flush
    have hrun : flush.onFile (d, f) = (none, (d', f')) := by simp only [onFile, hflush]
    rw [hrun]
    exact ⟨rfl, hpool, hholds, hlayout, hstore, hlabel⟩
  | write off bytes => exact ⟨rfl, rfl, h.write he, rfl, rfl, rfl⟩

/-- An allowed run on a file answers as on its pool and keeps the invariant, by induction on
the run from `onFile_refines`. -/
theorem runFile_refines : ∀ (es : List IdEvent) {d : Disk} {f : BlockFile}, f.Holds d →
    AllowedRun f.layout f.allocator.pool es →
    (runFile es (d, f)).1 = (runPool es f.allocator.pool).1 ∧
      (runFile es (d, f)).2.2.allocator.pool = (runPool es f.allocator.pool).2 ∧
      (runFile es (d, f)).2.2.Holds (runFile es (d, f)).2.1 ∧ (runFile es (d, f)).2.2.layout = f.layout ∧
      (runFile es (d, f)).2.2.store = f.store ∧ (runFile es (d, f)).2.2.label = f.label
  | [], _, _, h, _ => ⟨rfl, rfl, h, rfl, rfl, rfl⟩
  | e :: es, d, f, h, ⟨he, hes⟩ => by
    obtain ⟨hans, hpool, hholds, hlayout, hstore, hlabel⟩ := onFile_refines h he
    obtain ⟨answer, st⟩ := e.onFile (d, f)
    rw [← hpool, ← hlayout] at hes
    obtain ⟨hans', hpool', hholds', hlayout', hstore', hlabel'⟩ := runFile_refines es hholds hes
    refine ⟨?_, ?_, hholds', hlayout'.trans hlayout, hstore'.trans hstore, hlabel'.trans hlabel⟩
    · simp only [runFile, runPool, hans, hans', ← hpool]
    · simp only [runFile, runPool, hpool', hpool]

/-- From a file that opens, every allowed run of claims, releases, flushes and writes of the
file's own bytes answers as on the pool; the pool stays valid and its `latest` never goes down;
and a flush after the run leaves a store that opens again as the flushed file, whose allocator
stands for the pool. -/
theorem runFile_refines_pool {d : Disk} {store : StoreRef} {label : String}
    {header slotHeader capacity : Nat} {f : BlockFile} (hheader : 12 ≤ header) (hslot : 7 ≤ slotHeader)
    (hcap : capacity < Nat.pow 256 4) (hstore : store.store < d.stores.size)
    (hopen : BlockFile.open d store label header slotHeader capacity = .ok f)
    (es : List IdEvent) (hes : AllowedRun ⟨header, capacity⟩ f.allocator.pool es) :
    (runFile es (d, f)).1 = (runPool es f.allocator.pool).1 ∧
      (runFile es (d, f)).2.2.allocator.pool = (runPool es f.allocator.pool).2 ∧
      (runPool es f.allocator.pool).2.Valid ∧
      (∀ es₁ es₂, es = es₁ ++ es₂ →
        (runPool es₁ f.allocator.pool).2.latest ≤ (runPool es f.allocator.pool).2.latest) ∧
      ∃ d' f', BlockFile.flush (runFile es (d, f)).2 = .ok () (d', f') ∧
        BlockFile.open d' store label header slotHeader capacity =
          .ok { f' with created := false, disposed := false } ∧
        f'.allocator.pool = (runPool es f.allocator.pool).2 := by
  obtain ⟨h, hlayout, hstore₀, hlabel₀⟩ := BlockFile.holds_open hheader hslot hcap hstore hopen
  have hbig := BlockFile.slotHeader_lt_of_open hopen
  rw [← hlayout] at hes
  obtain ⟨hans, hpool, hholds, hlayout₁, hstore₁, hlabel₁⟩ := runFile_refines es h hes
  refine ⟨hans, hpool, (valid_runPool es h.allocator.valid).1, fun es₁ es₂ hsplit => ?_, ?_⟩
  · -- the rest of the run starts from the pool that `es₁` reached
    rw [hsplit, runPool_append]
    exact (valid_runPool es₂ (valid_runPool es₁ h.allocator.valid).1).2
  · obtain ⟨d', f', hflush, -, hpool', -, -, -, hreopen⟩ := hholds.flush
    refine ⟨d', f', hflush, ?_, hpool'.trans hpool⟩
    have := hreopen slotHeader (by rw [hlayout₁, hlayout]; exact hbig)
    simpa only [hlayout₁, hstore₁, hlabel₁, hlayout, hstore₀, hlabel₀] using this

/-- A new file on an empty store, with a 20-byte header and slots of 64 bytes: it hands out
id 1, takes id 5 (freeing 2, 3 and 4), frees id 1, writes into slot 5, and flushes. -/
theorem runFile_refines_pool_new_file :
    12 ≤ 20 ∧ 7 ≤ 30 ∧ 64 < Nat.pow 256 4 ∧ 0 < ({ stores := #[ByteArray.empty] } : Disk).stores.size ∧
      BlockFile.open { stores := #[ByteArray.empty] } ⟨0, none⟩ "ids" 20 30 64 =
        .ok ⟨"ids", ⟨0, none⟩, ⟨20, 64⟩, Cell.create 8 4 64, Allocator.create ⟨20, 64⟩, true, false⟩ ∧
      AllowedRun ⟨20, 64⟩ (Allocator.create ⟨20, 64⟩).pool
        [.claim none, .claim (some 5), .release 1, .write 340 [7], .flush] ∧
      (runFile [.claim none, .claim (some 5), .release 1, .write 340 [7], .flush]
          ({ stores := #[ByteArray.empty] },
            ⟨"ids", ⟨0, none⟩, ⟨20, 64⟩, Cell.create 8 4 64, Allocator.create ⟨20, 64⟩, true, false⟩)).1 =
        (runPool [.claim none, .claim (some 5), .release 1, .write 340 [7], .flush]
          (Allocator.create ⟨20, 64⟩).pool).1 :=
  ⟨by decide, by decide, by decide, by decide, rfl, by decide,
    (@runFile_refines_pool { stores := #[ByteArray.empty] } ⟨0, none⟩ "ids" 20 30 64
      ⟨"ids", ⟨0, none⟩, ⟨20, 64⟩, Cell.create 8 4 64, Allocator.create ⟨20, 64⟩, true, false⟩
      (by decide) (by decide) (by decide) (by decide) rfl _ (by decide)).1⟩

end IdEvent

end ColumnDb.Slot
