import Mathlib
import ColumnDb.Proofs.BlobModel

/-!
# Blob files written back and opened again

A flush writes every cached chain slot by slot, leaving each slot clean, then writes the file
part's header and free chain; the cache is emptied. A blob's slots are distinct allocated ids, so
each slot's write lands in its own slot and in none of the slots of another chain, and the header
writes land in none of them at all. After the flush every blob's chain reads back from the store
as the cached chain, cleaned (`Holds.writeBack`), and the file holds the same blobs in the same
slots with the same pool (`Holds.flush`).

Disposing flushes and closes the file; `BlobFile.reopen` disposes of it and opens its store again
with the same capacity. The file opened holds the same blobs in the same slots with the same pool
(`Holds.reopen`), so it stands for the same model (`Models.reopen`).
-/

set_option autoImplicit false

namespace ColumnDb.Blob

open ColumnDb.Slot ColumnDb.Disk

/-- Writing a chain back writes its slots one after another and leaves each clean. -/
theorem Chain.flush_eq (c : Chain) (d : Disk) (s : Nat) :
    c.flush d s = (c.map ChunkSlot.clean, c.foldl (fun d b => (b.flush d s).2) d) := by
  induction c generalizing d with
  | nil => rfl
  | cons b rest ih =>
    simp only [Chain.flush, ih, ChunkSlot.flush_fst, List.map_cons, List.foldl_cons]

@[simp] theorem Chain.data_map_clean (c : Chain) : Chain.data (c.map ChunkSlot.clean) = c.data := by
  simp only [Chain.data, List.flatMap_map, ChunkSlot.data_clean]

@[simp] theorem Chain.linked_map_clean (c : Chain) : Chain.Linked (c.map ChunkSlot.clean) ↔ c.Linked := by
  simp only [Chain.Linked, List.map_map]
  rfl

namespace BlobFile

variable {d : Disk} {f : BlobFile} {S : Nat → List Nat} {M : Nat → Option (List UInt8)} {m : BlobModel}

/-- The slots of the cached chains are distinct: each chain has its blob's slots, and no two
blobs share one. -/
theorem Holds.cachedSlots_nodup (h : f.Holds d S M) :
    ((f.records.toList.flatMap Prod.snd).map ChunkSlot.id).Nodup := by
  have hids : ∀ e ∈ f.records.toList, e.2.map ChunkSlot.id = S e.1 := fun e he =>
    (h.cached e.1 e.2 (Std.TreeMap.mem_toList_iff_getElem?_eq_some.mp he)).1
  rw [List.map_flatMap, List.flatMap_congr hids]
  refine List.nodup_flatMap.mpr ⟨fun e _ => h.splits.parts.nodup e.1, ?_⟩
  -- chains under distinct ids share no slot
  refine (Std.TreeMap.distinct_keys_toList (t := f.records)).imp fun hne => ?_
  intro k hk hk'
  exact hne (by rw [h.splits.parts.apart _ _ k hk hk']; exact Nat.compare_eq_eq.mpr rfl)

/-- A slot of a cached chain belongs to the blob of that chain. -/
theorem Holds.mem_cachedSlots (h : f.Holds d S M) {b : ChunkSlot} (hb : b ∈ f.records.toList.flatMap Prod.snd) :
    ∃ y, (f.records[y]?).isSome ∧ b.id ∈ S y ∧ b.Sound f.core.layout d f.core.sid b.id := by
  obtain ⟨⟨y, c⟩, he, hbc⟩ := List.mem_flatMap.mp hb
  have hc := Std.TreeMap.mem_toList_iff_getElem?_eq_some.mp he
  exact ⟨y, by simp [hc], (h.cached y c hc).1 ▸ List.mem_map_of_mem hbc, (h.cached y c hc).2.2 b hbc⟩

/-- Writing back every cached chain, slot by slot, each write inside its own slot: the file, its
cache emptied, reads every blob's chain back cleaned and holds the same blobs. -/
theorem Holds.writeBack (h : f.Holds d S M) :
    (⟨f.core, ∅⟩ : BlobFile).Holds (f.records.foldl (fun d _ c => (c.flush d f.core.sid).2) d) S M := by
  have hcap : chunkHeader ≤ f.core.layout.capacity := h.layout.2.le
  have hs : f.core.sid < d.stores.size := h.splits.core.store
  have hfold : f.records.foldl (fun d _ c => (c.flush d f.core.sid).2) d =
      (f.records.toList.flatMap Prod.snd).foldl (fun d b => (b.flush d f.core.sid).2) d := by
    rw [Std.TreeMap.foldl_eq_foldl_toList, List.foldl_flatMap]
    simp only [Chain.flush_eq]
  rw [hfold]
  set L := f.records.toList.flatMap Prod.snd with hL
  have hwb : ∀ d' b, b ∈ L → Disk.Within d' (b.flush d' f.core.sid).2 (f.core.layout.InSlot f.core.sid b.id) :=
    fun d' b hb => by
      obtain ⟨-, -, -, hsound⟩ := h.mem_cachedSlots hb
      exact ChunkSlot.within_flush hsound.toShaped hsound.payload_fits hcap d' _
  have hw := Disk.within_foldl (fun d (b : ChunkSlot) => (b.flush d f.core.sid).2)
    (fun b => f.core.layout.InSlot f.core.sid b.id) L hwb d
  have hdisj : L.Pairwise fun a b => ∀ u i, f.core.layout.InSlot f.core.sid a.id u i →
      ¬ f.core.layout.InSlot f.core.sid b.id u i :=
    (List.pairwise_map.mp h.cachedSlots_nodup).imp fun hne => Layout.inSlot_disjoint hne
  -- each cached slot, flushed at its turn, reads back clean at the end
  have hclean : ∀ b ∈ L, b.clean.Sound f.core.layout
      (L.foldl (fun d (b : ChunkSlot) => (b.flush d f.core.sid).2) d) f.core.sid b.id :=
    Disk.foldl_flush _ (fun b => f.core.layout.InSlot f.core.sid b.id)
      (fun b d => b.Sound f.core.layout d f.core.sid b.id ∧ f.core.sid < d.stores.size)
      (fun b d => b.clean.Sound f.core.layout d f.core.sid b.id) L hwb
      (fun d' b _ hpre => ChunkSlot.Sound.flush hpre.1 hpre.2)
      (fun b _ => show Disk.Reads _ _ from fun d₀ d₀' hsize hbytes hpre =>
        ⟨ChunkSlot.reads_sound b hcap d₀ d₀' hsize hbytes hpre.1, lt_of_lt_of_le hpre.2 hsize⟩)
      (fun b _ => ChunkSlot.reads_sound b.clean hcap)
      hdisj d (fun b hb => by
        obtain ⟨-, -, -, hsound⟩ := h.mem_cachedSlots hb
        exact ⟨hsound, hs⟩)
  generalize L.foldl (fun d (b : ChunkSlot) => (b.flush d f.core.sid).2) d = d₁ at hw hclean
  -- every blob's slots now read as its chain, cleaned: a cached chain was written, and an
  -- uncached one lies apart from every write
  have hchain : ∀ x, (⟨f.core, ∅⟩ : BlobFile).chainAt d₁ S x = (f.chainAt d S x).map ChunkSlot.clean := by
    intro x
    rw [chainAt_of_uncached (by simp)]
    cases hc : f.records[x]? with
    | some c =>
      rw [chainAt_of_cached hc, ← (h.cached x c hc).1, List.map_map]
      refine List.map_congr_left fun b hb => ?_
      exact ChunkSlot.load_of_clean (hclean b (List.mem_flatMap.mpr
        ⟨(x, c), Std.TreeMap.mem_toList_iff_getElem?_eq_some.mpr hc, hb⟩)) hcap
    | none =>
      rw [chainAt_of_uncached hc, List.map_map]
      refine List.map_congr_left fun k hk => ?_
      rw [Function.comp_apply, ChunkSlot.clean_load]
      refine ChunkSlot.load_within hw.confined (fun i hi hb => ?_) hcap
      obtain ⟨b, hbL, hbi⟩ := hb
      obtain ⟨y, hy, hby, -⟩ := h.mem_cachedSlots hbL
      have hne : b.id ≠ k := fun he => by
        rw [he] at hby
        rw [h.splits.parts.apart y x k hby hk, hc] at hy
        cases hy
      exact Layout.inSlot_disjoint hne _ _ hbi hi
  -- the writes fall in allocated slots, the file's own bytes
  have hcore : f.core.Holds d₁ := h.splits.core.within hw.confined fun u i hb => by
    obtain ⟨b, hbL, hi⟩ := hb
    obtain ⟨y, -, hby, -⟩ := h.mem_cachedSlots hbL
    refine ⟨hi.1, h.splits.core.owns_of_inSlot ((h.splits.parts.allocated b.id).mpr ⟨y, hby⟩) ?_⟩
    obtain ⟨rfl, h₁, h₂⟩ := hi
    exact ⟨rfl, h₁, h₂⟩
  refine ⟨⟨hcore, h.splits.parts⟩, h.opened, h.layout, fun x c hc => by simp at hc, fun x => ?_, h.first,
    fun x hx => ?_, fun x hx => ?_⟩
  · rw [h.blobs x, hchain x, Chain.data_map_clean]
  · rw [hchain x, Chain.linked_map_clean]
    exact h.linked x hx
  · rw [hchain x, Chain.data_map_clean]
    exact h.count x hx

/-- Flushing the file part of a file with an empty cache writes only the capacity cell and the
allocator's bytes: the file still holds its blobs, and its store opens again as the flushed part. -/
theorem Holds.flushCore (h : f.Holds d S M) (hr : f.records = ∅) :
    ∃ d' c, BlockFile.flush (d, f.core) = .ok () (d', c) ∧
      ({ f with core := c } : BlobFile).Holds d' S M ∧ c.allocator.pool = f.core.allocator.pool ∧
      c.layout = f.core.layout ∧ c.store = f.core.store ∧ c.label = f.core.label ∧ c.disposed = f.core.disposed ∧
      BlockFile.open d' f.core.store f.core.label blobHeader chunkHeader f.core.layout.capacity =
        .ok { c with created := false, disposed := false } := by
  obtain ⟨d', c, hflush, hholds, hpool, hlayout, hstore, hlabel, hreopen⟩ := h.splits.core.flush
  have hflush' := hflush
  simp only [BlockFile.flush_eq, EStateM.Result.ok.injEq, Prod.mk.injEq, true_and] at hflush'
  -- the flush writes only the capacity cell and the allocator's bytes
  have hw : Disk.Within d d' fun t i => t = f.core.sid ∧ 8 ≤ i ∧ i < 12 ∨
      f.core.allocator.Region f.core.layout f.core.sid t i := by
    rw [← hflush'.1]
    exact h.splits.core.within_flush
  have hdisp : c.disposed = f.core.disposed := by rw [← hflush'.2]
  have hsid : c.sid = f.core.sid := by unfold BlockFile.sid; rw [hstore]
  have hcap : chunkHeader ≤ f.core.layout.capacity := h.layout.2.le
  have hreopen' := hreopen chunkHeader h.layout.2
  rw [h.layout.1] at hreopen'
  -- a blob's slots are allocated, the file's own, which the flush leaves alone
  have hchain : ∀ x, ({ f with core := c } : BlobFile).chainAt d' S x = f.chainAt d S x := fun x => by
    rw [chainAt_of_uncached (by rw [hr]; simp), chainAt_of_uncached (by rw [hr]; simp)]
    show (S x).map (ChunkSlot.load d' c.sid c.layout) = _
    rw [hsid, hlayout]
    refine List.map_congr_left fun k hk => ?_
    exact ChunkSlot.load_within hw.confined (fun i hi => h.splits.core.not_flushed_of_owns
      (h.splits.core.owns_of_inSlot (h.lt_of_mem hk).1 hi)) hcap
  refine ⟨_, _, hflush, ⟨⟨hholds, by rw [hpool]; exact h.splits.parts⟩, by rw [← h.opened]; exact hdisp,
    by rw [hlayout]; exact h.layout, fun x c' hc' => by rw [hr] at hc'; simp at hc', fun x => ?_, h.first,
    fun x hx => ?_, fun x hx => ?_⟩, hpool, hlayout, hstore, hlabel, hdisp, hreopen'⟩
  · rw [hchain x]
    exact h.blobs x
  · rw [hchain x]
    exact h.linked x hx
  · show (S x).length = slotCount (ChunkSlot.payloadCapacity c.layout) _
    rw [hchain x, hlayout]
    exact h.count x hx

/-- A flush of a file holding blobs succeeds: the file, its cache emptied, holds the same blobs in
the same slots over the new store with the same pool, and the store opens again as the flushed
file part. -/
theorem Holds.flush (h : f.Holds d S M) :
    ∃ d' f', BlobFile.flush (d, f) = .ok () (d', f') ∧ f'.Holds d' S M ∧ f'.records = ∅ ∧
      f'.core.allocator.pool = f.core.allocator.pool ∧ f'.core.layout = f.core.layout ∧
      f'.core.store = f.core.store ∧ f'.core.label = f.core.label ∧ f'.core.disposed = f.core.disposed ∧
      BlockFile.open d' f.core.store f.core.label blobHeader chunkHeader f.core.layout.capacity =
        .ok { f'.core with created := false, disposed := false } := by
  obtain ⟨d', c, hrun, hB, hpool, hlayout, hstore, hlabel, hdisp, hreopen⟩ := h.writeBack.flushCore rfl
  refine ⟨d', _, ?_, hB, rfl, hpool, hlayout, hstore, hlabel, hdisp, hreopen⟩
  unfold BlobFile.flush
  rw [FileOp.bind_ok (ensureOpen_eq h.opened)]
  exact FileOp.bind_ok rfl |>.trans (FileOp.zoom_ok hrun)

/-- The flags of the file part are read by no part of the invariant. -/
theorem Holds.reflag (h : f.Holds d S M) (b : Bool) :
    ({ f with core := { f.core with created := b, disposed := false } } : BlobFile).Holds d S M :=
  ⟨⟨{ h.splits.core with }, h.splits.parts⟩, rfl, h.layout, h.cached, h.blobs, h.first, h.linked, h.count⟩

/-! ## Reopening -/

/-- Disposes of a blob file and opens its store again with the same capacity. -/
def reopen : BlobOp Unit := fun st =>
  match BlobFile.dispose st with
  | .error e st' => .error e st'
  | .ok _ (d, f) => match BlobFile.open d f.core.store f.core.label f.core.layout.capacity with
    | .ok f' => .ok () (d, f')
    | .error e => .error e (d, f)

/-- Disposing of a file holding blobs succeeds, and its store then opens, with the capacity of
the file disposed of, as the same file holding the same blobs in the same slots with the same
pool. -/
theorem Holds.dispose (h : f.Holds d S M) :
    ∃ d' f₁ f', BlobFile.dispose (d, f) = .ok () (d', f₁) ∧ f.Same f₁ ∧
      BlobFile.open d' f₁.core.store f₁.core.label f₁.core.layout.capacity = .ok f' ∧ f'.Holds d' S M ∧
      f'.core.allocator.pool = f.core.allocator.pool ∧ f.Same f' := by
  obtain ⟨d₁, f₁, hrun₁, h₁, hr₁, hpool₁, hlayout₁, hstore₁, hlabel₁, hdisp₁, -⟩ := h.flush
  -- disposing flushes the file part a second time, which writes it back again
  obtain ⟨d₂, c, hflush₂, h₂, hpool₂, hlayout₂, hstore₂, hlabel₂, -, hreopen₂⟩ := h₁.flushCore hr₁
  have hdispose : BlobFile.dispose (d, f) = .ok () (d₂, { f₁ with core := { c with disposed := true } }) := by
    unfold BlobFile.dispose
    simp only [bind, EStateM.bind, FileOp.self, h.opened, Bool.false_eq_true, if_false, hrun₁]
    simp only [onCore, FileOp.zoom, BlockFile.dispose, bind, EStateM.bind, FileOp.self, hdisp₁, h.opened,
      Bool.false_eq_true, if_false, hflush₂, FileOp.modify]
  -- the store opens as the file part written back, with an empty cache
  have hopen : BlobFile.open d₂ c.store c.label c.layout.capacity =
      .ok ⟨{ c with created := false, disposed := false }, ∅⟩ := by
    rw [← hstore₂, ← hlabel₂, ← hlayout₂] at hreopen₂
    unfold BlobFile.open
    rw [hreopen₂]
    rfl
  rw [hr₁] at h₂
  exact ⟨d₂, _, _, hdispose, ⟨hlayout₂.trans hlayout₁, hstore₂.trans hstore₁⟩, hopen, h₂.reflag false,
    hpool₂.trans hpool₁, ⟨hlayout₂.trans hlayout₁, hstore₂.trans hstore₁⟩⟩

/-- Disposing of a file holding blobs and opening its store again succeeds, and the file opened
is the same file holding the same blobs in the same slots with the same pool. -/
theorem Holds.reopen (h : f.Holds d S M) :
    ∃ d' f', BlobFile.reopen (d, f) = .ok () (d', f') ∧ f'.Holds d' S M ∧
      f'.core.allocator.pool = f.core.allocator.pool ∧ f.Same f' := by
  obtain ⟨d', f₁, f', hdispose, -, hopen, h', hpool, hsame⟩ := h.dispose
  refine ⟨d', f', ?_, h', hpool, hsame⟩
  simp only [BlobFile.reopen, hdispose, hopen]

/-- Disposing of a file that stands for a model and opening its store again gives the same file
standing for the same model. -/
theorem Models.reopen (h : f.Models d m) :
    ∃ d' f', BlobFile.reopen (d, f) = .ok () (d', f') ∧ f'.Models d' m ∧ f.Same f' := by
  obtain ⟨d', f', hrun, hholds, hpool, hsame⟩ := h.holds.reopen
  exact ⟨d', f', hrun, ⟨hholds, hpool.trans h.pool⟩, hsame⟩

/-- A flush of a file that stands for a model keeps it standing for the model. -/
theorem Models.flush (h : f.Models d m) :
    ∃ d' f', BlobFile.flush (d, f) = .ok () (d', f') ∧ f'.Models d' m ∧ f.Same f' := by
  obtain ⟨d', f', hrun, hholds, -, hpool, hlayout, hstore, -⟩ := h.holds.flush
  exact ⟨d', f', hrun, ⟨hholds, hpool.trans h.pool⟩, hlayout, hstore⟩

/-- A blob file opened on an empty store stands for the model with no blob and no id handed out,
with slots of `capacity - 12` payload bytes. -/
theorem models_open_new {store : StoreRef} {label : String} {capacity : Nat}
    (hcap : chunkHeader < capacity) (hcap' : capacity < Nat.pow 256 4) (hs : store.store < d.stores.size)
    (hempty : d.size store.store = 0) (hopen : BlobFile.open d store label capacity = .ok f) :
    f.Models d ⟨⟨0, []⟩, fun _ => [], fun _ => none⟩ ∧ ChunkSlot.payloadCapacity f.core.layout = capacity - chunkHeader := by
  unfold BlobFile.open at hopen
  cases hc : BlockFile.open d store label blobHeader chunkHeader capacity with
  | error e =>
    rw [hc] at hopen
    cases hopen
  | ok core =>
    rw [hc] at hopen
    cases hopen
    obtain ⟨hholds, hlayout, -, -⟩ := BlockFile.holds_open (by decide) (by decide) hcap' hs hc
    -- the store is empty, so the file is new: nothing allocated, nothing cached
    have hnew : core.allocator = Allocator.create core.layout ∧ core.disposed = false := by
      unfold BlockFile.open at hc
      rw [if_neg (show ¬capacity ≤ chunkHeader by omega)] at hc
      simp only [hempty, beq_self_eq_true, if_true] at hc
      cases hc
      exact ⟨rfl, rfl⟩
    have hpool : core.allocator.pool = ⟨0, []⟩ := by
      rw [hnew.1]
      rfl
    refine ⟨⟨⟨⟨hholds, ?_⟩, hnew.2, by rw [hlayout]; exact ⟨rfl, hcap⟩, fun x c hc => by simp at hc,
      fun x => by simp, fun x hx => absurd rfl hx, fun x hx => absurd rfl hx, fun x hx => absurd rfl hx⟩, hpool⟩,
      by rw [hlayout]; rfl⟩
    show core.allocator.pool.Parts _
    rw [hpool]
    refine ⟨fun y => iff_of_false (fun ha => ?_) (fun hy => ?_), fun x x' y hy => by simp at hy,
      fun x => List.nodup_nil⟩
    · have h₁ : 0 < y := ha.1
      have h₂ : y ≤ 0 := ha.2.1
      omega
    · obtain ⟨x, hx⟩ := hy
      simp at hx

end BlobFile

/-! ## Runs of calls -/

namespace BlobEvent

/-- Runs an event on the model of a blob file, `p` bytes to a slot. -/
def onModel (p : Nat) : BlobEvent → BlobModel → Except FileError BlobAnswer × BlobModel
  | .add data id?, m => ((m.add p data id?).1.map .id, (m.add p data id?).2)
  | .get x, m => (.ok (.blob (m.blobs x)), m)
  | .update x data, m => ((m.update p x data).1.map fun _ => .done, (m.update p x data).2)
  | .delete x, m => (.ok (.deleted (m.delete x).1), (m.delete x).2)

/-- The events a model allows, `p` bytes to a slot: reads, updates and deletes name an id that
starts a blob or is not allocated, and each blob written has room for its ids. -/
def AllowedOn (p : Nat) (m : BlobModel) : BlobEvent → Prop
  | .add data id? => m.Room p id? data.length
  | .get x => m.pool.Allocated x → (m.blobs x).isSome
  | .update x data => (m.pool.Allocated x → (m.blobs x).isSome) ∧ m.Room p (some x) data.length
  | .delete x => m.pool.Allocated x → (m.blobs x).isSome

instance (p : Nat) (m : BlobModel) : (e : BlobEvent) → Decidable (AllowedOn p m e)
  | .add _ _ => inferInstanceAs (Decidable (BlobModel.Room _ _ _ _))
  | .get _ => inferInstanceAs (Decidable (_ → _))
  | .update _ _ => inferInstanceAs (Decidable (_ ∧ _))
  | .delete _ => inferInstanceAs (Decidable (_ → _))

/-- A blob file standing for its model, with `p` bytes to a slot. -/
def Tracks (p : Nat) (st : Disk × BlobFile) (m : BlobModel) : Prop :=
  st.2.Models st.1 m ∧ ChunkSlot.payloadCapacity st.2.core.layout = p

theorem onFile_add (data : List UInt8) (id? : Option Nat) (st : Disk × BlobFile) :
    onFile (.add data id?) st =
      ((FileOp.outcome (BlobFile.add data id? st)).1.map .id, (FileOp.outcome (BlobFile.add data id? st)).2) := by
  cases hrun : BlobFile.add data id? st <;> simp only [onFile, hrun, FileOp.outcome_ok, FileOp.outcome_error, Except.map]

theorem onFile_update (x : Nat) (data : List UInt8) (st : Disk × BlobFile) :
    onFile (.update x data) st =
      ((FileOp.outcome (BlobFile.update x data st)).1.map fun _ => .done,
        (FileOp.outcome (BlobFile.update x data st)).2) := by
  cases hrun : BlobFile.update x data st <;>
    simp only [onFile, hrun, FileOp.outcome_ok, FileOp.outcome_error, Except.map]

/-- A blob file standing for a model answers every allowed event as the model does and keeps
standing for it: each event from its operation's lemma. -/
theorem simulates (p : Nat) : Simulates onFile (onModel p) (AllowedOn p) (Tracks p) := by
  intro st m e hR he
  obtain ⟨d, f⟩ := st
  obtain ⟨h, hp⟩ : f.Models d m ∧ ChunkSlot.payloadCapacity f.core.layout = p := hR
  subst hp
  cases e with
  | add data id? =>
    obtain ⟨f', hrun, hm, hsame⟩ := h.add he
    rw [onFile_add, hrun]
    exact ⟨rfl, hm, by rw [hsame.layout]⟩
  | get x =>
    obtain ⟨f', hrun, hm, hcore⟩ := h.get he
    simp only [onFile, hrun]
    exact ⟨rfl, hm, by rw [hcore]⟩
  | update x data =>
    obtain ⟨f', hrun, hm, hsame⟩ := h.update he.1 he.2
    rw [onFile_update, hrun]
    exact ⟨rfl, hm, by rw [hsame.layout]⟩
  | delete x =>
    obtain ⟨f', hrun, hm, hsame⟩ := h.delete he
    simp only [onFile, hrun]
    exact ⟨rfl, hm, by rw [hsame.layout]⟩

variable {p : Nat} {st : Disk × BlobFile} {m : BlobModel}

/-- A flush keeps a file standing for its model. -/
theorem Tracks.flush (h : Tracks p st m) : ∃ st', BlobFile.flush st = .ok () st' ∧ Tracks p st' m := by
  obtain ⟨hm, hp⟩ := h
  obtain ⟨d', f', hrun, hm', hsame⟩ := hm.flush
  exact ⟨(d', f'), hrun, hm', by rw [hsame.layout]; exact hp⟩

/-- Reopening keeps a file standing for its model. -/
theorem Tracks.reopen (h : Tracks p st m) : ∃ st', BlobFile.reopen st = .ok () st' ∧ Tracks p st' m := by
  obtain ⟨hm, hp⟩ := h
  obtain ⟨d', f', hrun, hm', hsame⟩ := hm.reopen
  exact ⟨(d', f'), hrun, hm', by rw [hsame.layout]; exact hp⟩

/-- Runs a call on a blob file and its store. -/
def callFile : Call Probe BlobEvent → Disk × BlobFile → Reply Reading BlobAnswer × (Disk × BlobFile) :=
  Call.onFile onFile (fun f q => q.onCore f.core) BlobFile.flush BlobFile.reopen

/-- Runs a call on the model of a blob file, `p` bytes to a slot. -/
def callModel (p : Nat) : Call Probe BlobEvent → BlobModel → Reply Reading BlobAnswer × BlobModel :=
  Call.onModel (onModel p) fun m q => q.onPool m.pool

/-- A blob file standing for a model runs every allowed call as the model does. -/
theorem calls_simulate (p : Nat) : Simulates callFile (callModel p) (Call.Allowed (AllowedOn p)) (Tracks p) :=
  Call.simulates (simulates p)
    (fun st m q h => by rw [Probe.onCore_eq_onPool, h.1.pool])
    (fun _ _ h => h.flush) (fun _ _ h => h.reopen)

end BlobEvent

end ColumnDb.Blob
