import Mathlib
import ColumnDb.Proofs.TreeModel
import ColumnDb.Proofs.TextRows
import ColumnDb.Proofs.BlobStore

/-!
# Refused writes change nothing

A write to a slot file runs its checks before its first change: the file is open, the value's
encoding fits a slot's payload, and an id asked for can be claimed. So a write that fails leaves
the file as it found it, and the error says which check refused it (`Refusal`).

`FailsCleanly r keeps P` says that a run ending in an error ends in a state `keeps` allows, with
an error `P` allows. For tree files `keeps` is equality with the start, on any file that holds its
rows or is disposed. A data file caches the slot of a live row before it finds a new value too
large for it; the slot is read from the store and clean, so the file still reads every row as
before and a flush writes the same bytes (`DataFile.Recached`). A blob file refuses before it
touches anything, also when a stored chain turns out broken; this needs only that its slots are
laid out for its payload (`BlobFile.Tidy`), which every reachable blob file is. A text file whose
pointer id is refused deletes the blob it stored for the text again: the pointer file is as it
was and the blob file holds the same blobs, though its allocator may hand ids out in another
order.
-/

set_option autoImplicit false

namespace ColumnDb.Slot

open ColumnDb.Disk

/-- Why a slot file may refuse a write: it is disposed; the id asked for (`id?`) is 0 or
allocated; or an encoding is longer than a slot's payload (`size?`, the two lengths). -/
inductive Refusal (c : BlockFile) (id? : Option Nat) (size? : Option (Nat × Nat)) : FileError → Prop
  | disposed : c.disposed = true → Refusal c id? size? (.disposed c.label)
  | idInUse {x : Nat} : id? = some x → (x = 0 ∨ c.isAllocated x = true) → Refusal c id? size? (.idInUse x)
  | tooLarge {len cap : Nat} : size? = some (len, cap) → cap < len →
      Refusal c id? size? (.slot (.tooLarge len cap))

/-- A run fails cleanly when every error it ends in is one `P` allows, in a state `keeps` allows. -/
def FailsCleanly {σ α : Type} (r : EStateM.Result FileError σ α) (keeps : σ → Prop) (P : FileError → Prop) :
    Prop :=
  ∀ e st, r = .error e st → keeps st ∧ P e

namespace FailsCleanly

variable {σ α : Type} {keeps : σ → Prop} {P : FileError → Prop}

theorem of_ok {a : α} {st : σ} : FailsCleanly (.ok a st) keeps P := by
  intro e st' h
  cases h

theorem of_error {e : FileError} {st : σ} (hk : keeps st) (hp : P e) :
    FailsCleanly (.error e st : EStateM.Result FileError σ α) keeps P := by
  intro e' st' h
  cases h
  exact ⟨hk, hp⟩

theorem mono {r : EStateM.Result FileError σ α} {keeps' : σ → Prop} {P' : FileError → Prop}
    (h : FailsCleanly r keeps P) (hk : ∀ st, keeps st → keeps' st) (hp : ∀ e, P e → P' e) :
    FailsCleanly r keeps' P' := by
  intro e st hr
  obtain ⟨hst, he⟩ := h e st hr
  exact ⟨hk st hst, hp e he⟩

theorem discard {τ : Type} {m : FileOp τ α} {st : Disk × τ} {keeps : Disk × τ → Prop}
    (h : FailsCleanly (m st) keeps P) : FailsCleanly ((discard m : FileOp τ PUnit) st) keeps P := by
  cases hm : m st with
  | ok a st' => rw [FileOp.discard_ok hm]; exact of_ok
  | error e st' =>
    rw [FileOp.discard_error hm]
    obtain ⟨hk, hp⟩ := h e st' hm
    exact of_error hk hp

end FailsCleanly

/-- The allocator refuses an id only when it is 0 or allocated. -/
theorem Allocator.tryUse_eq_none {a : Allocator} {d : Disk} {s x : Nat} (h : a.tryUse d s x = none) :
    x = 0 ∨ a.isAllocated x = true := by
  unfold Allocator.tryUse at h
  by_cases hx : x = 0
  · exact .inl hx
  rw [if_neg (by simpa using hx)] at h
  by_cases hle : x ≤ a.latest.value
  · rw [if_pos hle] at h
    -- the free chain did not hold `x`
    have hfree : a.free.contains x = false := by
      unfold FreeChain.remove at h
      cases hi : a.free.members.idxOf? x with
      | none =>
        have := Array.idxOf?_eq_none_iff.mp hi
        simpa [FreeChain.contains] using this
      | some p => simp [hi] at h
    right
    simp [Allocator.isAllocated, hx, hle, hfree]
  · rw [if_neg hle] at h
    cases h

theorem BlockFile.ensureOpen_disposed {d : Disk} {c : BlockFile} (h : c.disposed = true) :
    BlockFile.ensureOpen (d, c) = .error (.disposed c.label) (d, c) := by
  simp [BlockFile.ensureOpen, bind, EStateM.bind, FileOp.self, FileOp.fail, h]

end ColumnDb.Slot

namespace ColumnDb.Tree

open ColumnDb.Slot ColumnDb.Disk

/-- An allowed add names an id that fits a link, or asks for room for the next one. -/
theorem RowEvent.allowed_add {k : ValueKind} {p : IdPool} {v : Value} {id? : Option Nat}
    (he : (RowEvent.add v id?).Allowed k p) :
    v.kind = k ∧ v.Fits ∧ (id? = none → p.free = [] → p.latest + 1 < Nat.pow 256 8) ∧
      ∀ x, id? = some x → x < Nat.pow 256 8 := by
  cases id? with
  | none => exact ⟨he.1, he.2.1, fun _ => he.2.2, fun _ hx => (by cases hx)⟩
  | some y =>
    refine ⟨he.1, he.2.1, fun hy => (by cases hy), fun x hx => ?_⟩
    rw [← Option.some.inj hx]
    exact he.2.2

namespace TreeFile

variable {d : Disk} {t : TreeFile} {R : List (Nat × Value)}

/-- What a tree file owes a refused write: every allowed add, update and delete that fails leaves
the file and its store exactly as they were, refused by one of its checks. -/
def RefusesCleanly (d : Disk) (t : TreeFile) : Prop :=
  (∀ v id?, (RowEvent.add v id?).Allowed t.kind t.core.allocator.pool →
    FailsCleanly (TreeFile.add v id? (d, t)) (· = (d, t))
      (Refusal t.core id? (some (v.encode.length, NodeSlot.payloadCapacity t.core.layout)))) ∧
  (∀ x v, (RowEvent.update x v).Allowed t.kind t.core.allocator.pool →
    FailsCleanly (TreeFile.update x v (d, t)) (· = (d, t))
      (Refusal t.core (some x) (some (v.encode.length, NodeSlot.payloadCapacity t.core.layout)))) ∧
  ∀ x, FailsCleanly (TreeFile.delete x (d, t)) (· = (d, t)) (Refusal t.core none none)

theorem ensureOpen_disposed (h : t.core.disposed = true) :
    (onCore BlockFile.ensureOpen : TreeOp Unit) (d, t) = .error (.disposed t.core.label) (d, t) :=
  FileOp.zoom_error (BlockFile.ensureOpen_disposed h)

/-- A disposed file refuses every write before it looks at it. -/
theorem refusesCleanly_of_disposed (h : t.core.disposed = true) : t.RefusesCleanly d := by
  refine ⟨fun v id? _ => ?_, fun x v _ => ?_, fun x => ?_⟩
  · unfold TreeFile.add
    rw [FileOp.bind_error (ensureOpen_disposed h)]
    exact FailsCleanly.of_error rfl (.disposed h)
  · unfold TreeFile.update
    rw [FileOp.bind_error (ensureOpen_disposed h)]
    exact FailsCleanly.of_error rfl (.disposed h)
  · unfold TreeFile.delete
    rw [FileOp.bind_error (ensureOpen_disposed h)]
    exact FailsCleanly.of_error rfl (.disposed h)

/-- An allowed add to a file that holds its rows fails only on an id that is 0 or allocated or a
value too large for a node, and then nothing has changed. -/
theorem Rows.add_fails_cleanly (h : t.Rows d R) {v : Value} {id? : Option Nat}
    (he : (RowEvent.add v id?).Allowed t.kind t.core.allocator.pool) :
    FailsCleanly (TreeFile.add v id? (d, t)) (· = (d, t))
      (Refusal t.core id? (some (v.encode.length, NodeSlot.payloadCapacity t.core.layout))) := by
  by_cases hlen : NodeSlot.payloadCapacity t.core.layout < v.encode.length
  · rw [h.add_tooLarge hlen]
    exact FailsCleanly.of_error rfl (.tooLarge rfl hlen)
  have hlen' := Nat.le_of_not_lt hlen
  cases id? with
  | none =>
    obtain ⟨hkind, hfits, hroom⟩ := he
    obtain ⟨t', hrun, -⟩ := h.add_of_claims hkind hfits hlen' (h.claims_none hroom)
    rw [hrun]
    exact FailsCleanly.of_ok
  | some x =>
    obtain ⟨hkind, hfits, hx⟩ := he
    cases ha : t.core.allocator.tryUse d t.core.sid x with
    | none =>
      rw [h.add_taken hlen' ha]
      exact FailsCleanly.of_error rfl (.idInUse rfl (Allocator.tryUse_eq_none ha))
    | some a =>
      obtain ⟨t', hrun, -⟩ := h.add_of_claims hkind hfits hlen' (h.claims_some hx ha)
      rw [hrun]
      exact FailsCleanly.of_ok

theorem Rows.update_fails_cleanly (h : t.Rows d R) {x : Nat} {v : Value}
    (he : (RowEvent.update x v).Allowed t.kind t.core.allocator.pool) :
    FailsCleanly (TreeFile.update x v (d, t)) (· = (d, t))
      (Refusal t.core (some x) (some (v.encode.length, NodeSlot.payloadCapacity t.core.layout))) := by
  obtain ⟨hkind, hfits, hx⟩ := he
  by_cases hlive : t.core.isAllocated x = true
  · by_cases hlen : NodeSlot.payloadCapacity t.core.layout < v.encode.length
    · rw [h.update_tooLarge hlive hlen]
      exact FailsCleanly.of_error rfl (.tooLarge rfl hlen)
    · obtain ⟨t', hrun, -⟩ := h.update_live hlive hkind hfits (Nat.le_of_not_lt hlen)
      rw [hrun]
      exact FailsCleanly.of_ok
  · -- an id no row has: the update is an add under it
    have he : (RowEvent.add v (some x)).Allowed t.kind t.core.allocator.pool := ⟨hkind, hfits, hx⟩
    rw [update_not_live h.opened (Bool.eq_false_iff.mpr hlive)]
    exact (h.add_fails_cleanly he).discard

theorem Rows.refusesCleanly (h : t.Rows d R) : t.RefusesCleanly d := by
  refine ⟨fun v id? he => h.add_fails_cleanly he, fun x v he => h.update_fails_cleanly he, fun x => ?_⟩
  obtain ⟨t', hrun, -⟩ := h.delete x
  rw [hrun]
  exact FailsCleanly.of_ok

end TreeFile

end ColumnDb.Tree

namespace ColumnDb.Data

open ColumnDb.Slot ColumnDb.Disk ColumnDb.Tree

/-- Folding over a map with one more entry, on which the step does nothing, folds as before. -/
theorem foldl_insert_of_fixed {β δ : Type} {m : Std.TreeMap Nat β} {k : Nat} (hk : m[k]? = none) (r : β)
    (g : δ → Nat → β → δ) (hr : ∀ e, g e k r = e) (init : δ) :
    (m.insert k r).foldl g init = m.foldl g init := by
  rw [Std.TreeMap.foldl_eq_foldl_toList, Std.TreeMap.foldl_eq_foldl_toList]
  have hsorted : ∀ m : Std.TreeMap Nat β, m.toList.Pairwise (fun p q => p.1 < q.1) := by
    intro m
    have hcmp : m.toList.Pairwise (fun p q => compare p.1 q.1 = .lt) := Std.TreeMap.ordered_keys_toList
    exact hcmp.imp Nat.compare_eq_lt.mp
  -- the listing without the new entry is the old listing: both are sorted with the same members
  have hlist : (m.insert k r).toList.filter (fun p => p.1 != k) = m.toList := by
    have : Std.Irrefl (fun p q : Nat × β => p.1 < q.1) := ⟨fun p => Nat.lt_irrefl p.1⟩
    have : Std.Antisymm (fun p q : Nat × β => p.1 < q.1) := ⟨fun p q h h' => absurd (h.trans h') (Nat.lt_irrefl _)⟩
    apply List.Pairwise.eq_of_mem_iff ((hsorted _).filter _) (hsorted m)
    rintro ⟨j, b⟩
    simp only [List.mem_filter, Std.TreeMap.mem_toList_iff_getElem?_eq_some, FreeChain.getElem?_insert_nat,
      bne_iff_ne, ne_eq]
    by_cases hj : j = k
    · subst hj
      simp [hk]
    · simp [hj, Ne.symm hj]
  rw [← hlist, List.foldl_filter]
  apply List.foldl_ext
  rintro e ⟨j, b⟩ hjb
  by_cases hj : j = k
  · subst hj
    have hb : b = r := by
      have := Std.TreeMap.mem_toList_iff_getElem?_eq_some.mp hjb
      simpa [FreeChain.getElem?_insert_nat] using this.symm
    subst hb
    simp [hr]
  · simp [hj]

namespace DataFile

variable {d : Disk} {f : DataFile} {M : Nat → Option Value}

/-- `f'` is `f` with slots read from the store `d` into its cache: the same file part and kind,
every row's slot read the same, and a flush that writes the same bytes and leaves the same file. -/
structure Recached (d : Disk) (f f' : DataFile) : Prop where
  core : f'.core = f.core
  kind : f'.kind = f.kind
  slotAt : ∀ k, f'.slotAt d k = f.slotAt d k
  flush : DataFile.flush (d, f') = DataFile.flush (d, f)

theorem Recached.refl (d : Disk) (f : DataFile) : Recached d f f := ⟨rfl, rfl, fun _ => rfl, rfl⟩

/-- A slot read from a store is clean: flushing it writes nothing. -/
theorem flush_load (d d' : Disk) (s : Nat) (l : Layout) (k : Nat) :
    ((ChunkSlot.load d s l k).flush d' s).2 = d' := by
  simp [ChunkSlot.load, ChunkSlot.flush, Cell.flush, Cell.ofBytes, Window.flush, Window.ofBytes]

/-- Caching the stored slot of a row not cached yet changes nothing a flush does. -/
theorem flush_insert_load (hopen : f.core.disposed = false) {k : Nat} (hk : f.records[k]? = none) :
    DataFile.flush (d, { f with records := f.records.insert k (ChunkSlot.load d f.core.sid f.core.layout k) }) =
      DataFile.flush (d, f) := by
  unfold DataFile.flush
  rw [FileOp.bind_ok (ensureOpen_eq hopen), FileOp.bind_ok (ensureOpen_eq (show
    ({ f with records := f.records.insert k (ChunkSlot.load d f.core.sid f.core.layout k) } : DataFile).core.disposed =
      false from hopen))]
  simp only [bind, EStateM.bind, FileOp.write]
  rw [foldl_insert_of_fixed hk _ _ (fun e => flush_load d e _ _ k)]

/-- Reading a row's slot of an open file answers the slot the file reads there, and only caches it. -/
theorem record_recached (d : Disk) (hopen : f.core.disposed = false) (k : Nat) :
    ∃ f', DataFile.record k (d, f) = .ok (f.slotAt d k) (d, f') ∧ Recached d f f' := by
  cases hk : f.records[k]? with
  | some r =>
    refine ⟨f, ?_, Recached.refl d f⟩
    simp [DataFile.record, bind, EStateM.bind, FileOp.self, hk, slotAt_of_cached hk, pure, EStateM.pure]
  | none =>
    refine ⟨{ f with records := f.records.insert k (ChunkSlot.load d f.core.sid f.core.layout k) }, ?_,
      ⟨rfl, rfl, fun j => ?_, flush_insert_load hopen hk⟩⟩
    · simp [DataFile.record, bind, EStateM.bind, FileOp.self, FileOp.disk, FileOp.modify, hk,
        slotAt_of_uncached hk, pure, EStateM.pure]
    · unfold slotAt
      rw [FreeChain.getElem?_insert_nat]
      by_cases hj : k = j
      · subst hj
        rw [if_pos rfl, hk]
        rfl
      · rw [if_neg hj]

/-- A value too large for a live row's slot is refused after the slot is cached, which changes
nothing the file reads or writes. -/
theorem Holds.update_tooLarge_recached (h : f.Holds d M) {x : Nat} (hx : f.core.isAllocated x = true) {v : Value}
    (hlen : ChunkSlot.payloadCapacity f.core.layout < v.encode.length) :
    ∃ f', DataFile.update x v (d, f) =
        .error (.slot (.tooLarge v.encode.length (ChunkSlot.payloadCapacity f.core.layout))) (d, f') ∧
      Recached d f f' := by
  obtain ⟨f₁, hrun, hrec⟩ := record_recached d h.opened x
  have hset : (f.slotAt d x).setData v.encode =
      .error (.tooLarge v.encode.length (ChunkSlot.payloadCapacity f.core.layout)) := by
    have hcap := (h.slot_sound x).payload_capacity
    simp only [ChunkSlot.setData, Window.update, hcap, gt_iff_lt, hlen, if_true, bind, Except.bind]
  refine ⟨f₁, ?_, hrec⟩
  unfold DataFile.update
  rw [FileOp.bind_ok (ensureOpen_eq h.opened)]
  simp only [bind, EStateM.bind, FileOp.self, hx, Bool.not_true, Bool.false_eq_true, if_false]
  rw [hrun]
  simp only [hset, FileOp.fail]

/-- What a data file owes a refused write: every allowed add, update and delete that fails leaves
the store as it was and the file recached, refused by one of its checks. -/
def RefusesCleanly (d : Disk) (f : DataFile) : Prop :=
  (∀ v id?, (RowEvent.add v id?).Allowed f.kind f.core.allocator.pool →
    FailsCleanly (DataFile.add v id? (d, f)) (fun st => st.1 = d ∧ Recached d f st.2)
      (Refusal f.core id? (some (v.encode.length, ChunkSlot.payloadCapacity f.core.layout)))) ∧
  (∀ x v, (RowEvent.update x v).Allowed f.kind f.core.allocator.pool →
    FailsCleanly (DataFile.update x v (d, f)) (fun st => st.1 = d ∧ Recached d f st.2)
      (Refusal f.core (some x) (some (v.encode.length, ChunkSlot.payloadCapacity f.core.layout)))) ∧
  ∀ x, FailsCleanly (DataFile.delete x (d, f)) (fun st => st.1 = d ∧ Recached d f st.2) (Refusal f.core none none)

theorem ensureOpen_disposed (h : f.core.disposed = true) :
    (onCore BlockFile.ensureOpen : DataOp Unit) (d, f) = .error (.disposed f.core.label) (d, f) :=
  FileOp.zoom_error (BlockFile.ensureOpen_disposed h)

/-- A disposed file refuses every write before it looks at it. -/
theorem refusesCleanly_of_disposed (h : f.core.disposed = true) : f.RefusesCleanly d := by
  refine ⟨fun v id? _ => ?_, fun x v _ => ?_, fun x => ?_⟩
  · unfold DataFile.add
    rw [FileOp.bind_error (ensureOpen_disposed h)]
    exact FailsCleanly.of_error ⟨rfl, Recached.refl d f⟩ (.disposed h)
  · unfold DataFile.update
    rw [FileOp.bind_error (ensureOpen_disposed h)]
    exact FailsCleanly.of_error ⟨rfl, Recached.refl d f⟩ (.disposed h)
  · unfold DataFile.delete
    rw [FileOp.bind_error (ensureOpen_disposed h)]
    exact FailsCleanly.of_error ⟨rfl, Recached.refl d f⟩ (.disposed h)

/-- An allowed add to a file that holds its rows fails only on an id that is 0 or allocated or a
value too large for a slot, and then nothing has changed. -/
theorem Holds.add_fails_cleanly (h : f.Holds d M) {v : Value} {id? : Option Nat}
    (he : (RowEvent.add v id?).Allowed f.kind f.core.allocator.pool) :
    FailsCleanly (DataFile.add v id? (d, f)) (· = (d, f))
      (Refusal f.core id? (some (v.encode.length, ChunkSlot.payloadCapacity f.core.layout))) := by
  by_cases hlen : ChunkSlot.payloadCapacity f.core.layout < v.encode.length
  · rw [h.add_tooLarge hlen id?]
    exact FailsCleanly.of_error rfl (.tooLarge rfl hlen)
  obtain ⟨hkind, hfits, hroom, hlt⟩ := RowEvent.allowed_add he
  rcases h.add_eq hkind hfits (Nat.le_of_not_lt hlen) hroom hlt with ⟨x, f', hrun, -⟩ | ⟨x, hid, hx, hrun⟩
  · rw [hrun]
    exact FailsCleanly.of_ok
  · rw [hrun]
    exact FailsCleanly.of_error rfl (.idInUse hid (by rwa [h.allocated]))

theorem Holds.update_fails_cleanly (h : f.Holds d M) {x : Nat} {v : Value}
    (he : (RowEvent.update x v).Allowed f.kind f.core.allocator.pool) :
    FailsCleanly (DataFile.update x v (d, f)) (fun st => st.1 = d ∧ Recached d f st.2)
      (Refusal f.core (some x) (some (v.encode.length, ChunkSlot.payloadCapacity f.core.layout))) := by
  obtain ⟨hkind, hfits, hx⟩ := he
  by_cases hlive : f.core.isAllocated x = true
  · by_cases hlen : ChunkSlot.payloadCapacity f.core.layout < v.encode.length
    · obtain ⟨f', hrun, hrec⟩ := h.update_tooLarge_recached hlive hlen
      rw [hrun]
      exact FailsCleanly.of_error ⟨rfl, hrec⟩ (.tooLarge rfl hlen)
    · obtain ⟨f', hrun, -⟩ := h.update_live hlive hkind hfits (Nat.le_of_not_lt hlen)
      rw [hrun]
      exact FailsCleanly.of_ok
  · -- an id no row has: the update is an add under it
    have he : (RowEvent.add v (some x)).Allowed f.kind f.core.allocator.pool := ⟨hkind, hfits, hx⟩
    rw [update_not_live h.opened (Bool.eq_false_iff.mpr hlive)]
    refine ((h.add_fails_cleanly he).mono (fun st hst => ?_) fun _ he => he).discard
    subst hst
    exact ⟨rfl, Recached.refl d f⟩

theorem Holds.refusesCleanly (h : f.Holds d M) : f.RefusesCleanly d := by
  refine ⟨fun v id? he => ?_, fun x v he => h.update_fails_cleanly he, fun x => ?_⟩
  · refine (h.add_fails_cleanly he).mono (fun st hst => ?_) fun _ he => he
    subst hst
    exact ⟨rfl, Recached.refl d f⟩
  · obtain ⟨f', hrun, -⟩ := h.delete x
    rw [hrun]
    exact FailsCleanly.of_ok

end DataFile

end ColumnDb.Data

namespace ColumnDb.Slot.ChunkSlot

open ColumnDb.Disk

/-- A slot read from a store is laid out for its layout's payload. -/
theorem sized_load (d : Disk) (s : Nat) (l : Layout) (k : Nat) : (load d s l k).Sized (payloadCapacity l) :=
  ⟨rfl, rfl, rfl, Window.fits_ofBytes _ _ _⟩

end ColumnDb.Slot.ChunkSlot

namespace ColumnDb.Blob

open ColumnDb.Slot ColumnDb.Disk

namespace BlobFile

variable {d : Disk} {f : BlobFile}

/-- A blob file whose payload is positive and fits a four-byte length, and whose cached slots are
laid out for it: what keeps a write from failing once it has begun. -/
structure Tidy (f : BlobFile) : Prop where
  payload_pos : 0 < ChunkSlot.payloadCapacity f.core.layout
  payload_lt : ChunkSlot.payloadCapacity f.core.layout < Nat.pow 256 4
  sized : ∀ (x : Nat) (c : Chain), f.records[x]? = some c →
    ∀ b ∈ c, b.Sized (ChunkSlot.payloadCapacity f.core.layout)

/-- A file between flushes is tidy. -/
theorem Stores.tidy {M : Nat → Option (List UInt8)} (h : f.Stores d M) : f.Tidy :=
  ⟨h.payload_pos, h.payload_lt, h.sized⟩

/-! ## Steps that cannot fail -/

/-- Releasing slots one after the other only hands their ids back. -/
theorem forIn_release_ok (d : Disk) : ∀ (R : List ChunkSlot) (f : BlobFile), ∃ a,
    (forIn R PUnit.unit (fun (slot : ChunkSlot) _ => do
        onCore (BlockFile.release slot.id)
        pure (ForInStep.yield PUnit.unit)) : BlobOp PUnit) (d, f) = .ok PUnit.unit (d, f.withAllocator a)
  | [], f => ⟨f.core.allocator, rfl⟩
  | y :: R, f => by
    obtain ⟨a, hrun⟩ := forIn_release_ok d R (f.withAllocator (f.core.allocator.release d f.core.sid y.id))
    refine ⟨a, ?_⟩
    rw [withAllocator_withAllocator] at hrun
    rw [List.forIn_cons]
    simp only [bind, EStateM.bind, release_eq, pure, EStateM.pure]
    exact hrun

theorem shrink_ok (d : Disk) (f : BlobFile) (n : Nat) (c : Chain) :
    ∃ a, shrink n c (d, f) = .ok (c.take n) (d, f.withAllocator a) := by
  obtain ⟨a, hrun⟩ := forIn_release_ok d (c.drop n).reverse f
  refine ⟨a, ?_⟩
  unfold shrink
  rw [FileOp.bind_ok hrun]
  rfl

theorem grow_ok (d : Disk) : ∀ (k : Nat) (c : Chain) (f : BlobFile), ∃ a news,
    grow k c (d, f) = .ok (c ++ news) (d, f.withAllocator a) ∧ news.length = k ∧
      ∀ b ∈ news, b.Sized (ChunkSlot.payloadCapacity f.core.layout)
  | 0, c, f => ⟨f.core.allocator, [], by rw [List.append_nil]; rfl, rfl, by simp⟩
  | k + 1, c, f => by
    obtain ⟨b, hb, -, hsized, -⟩ := ChunkSlot.create_nil f.core.layout (f.core.allocator.nextFreeId d f.core.sid).1
    obtain ⟨a, news, hrun, hlen, hnews⟩ :=
      grow_ok d k (c ++ [b]) (f.withAllocator (f.core.allocator.nextFreeId d f.core.sid).2)
    refine ⟨a, b :: news, ?_, by simp [hlen], ?_⟩
    · unfold grow
      rw [FileOp.bind_ok nextFreeId_eq]
      simp only [bind, EStateM.bind, FileOp.self, layout_withAllocator, hb]
      simpa using hrun
    · intro b' hb'
      rcases List.mem_cons.mp hb' with rfl | hb'
      · exact hsized
      · exact hnews b' hb'

/-- Writing over a chain of slots laid out for a positive payload never fails: it releases and
takes slots and fills them, and changes nothing but the allocator. -/
theorem write_ok (d : Disk) (f : BlobFile) {c : Chain}
    (hc : ∀ b ∈ c, b.Sized (ChunkSlot.payloadCapacity f.core.layout))
    (hp : 0 < ChunkSlot.payloadCapacity f.core.layout) (hp' : ChunkSlot.payloadCapacity f.core.layout < Nat.pow 256 4)
    (data : List UInt8) : ∃ a c', write c data (d, f) = .ok c' (d, f.withAllocator a) := by
  set p := ChunkSlot.payloadCapacity f.core.layout with hpdef
  set n := slotCount p data.length
  have hneed : max (pieces (p - 1) data).length 1 = n := max_length_pieces hp data
  obtain ⟨a₁, hrun₁⟩ := shrink_ok d f n c
  obtain ⟨a₂, news, hrun₂, hlen₂, hnews⟩ := grow_ok d (n - (c.take n).length) (c.take n) (f.withAllocator a₁)
  have hlen : (c.take n ++ news).length = n := by
    rw [List.length_append, hlen₂, List.length_take]
    omega
  obtain ⟨c', hrun₃, -⟩ := fill_eq (d := d) (f := (f.withAllocator a₁).withAllocator a₂)
    hp' (c.take n ++ news) (pieces (p - 1) data)
    (by
      intro b hb
      rcases List.mem_append.mp hb with hb | hb
      · exact hc b (List.mem_of_mem_take hb)
      · exact hnews b hb)
    (fun q hq => by have := length_le_of_mem_pieces hq; omega)
    (by rw [hlen, ← hneed]; exact le_max_left _ _)
  refine ⟨a₂, c', ?_⟩
  unfold write
  simp only [bind, EStateM.bind, FileOp.self]
  rw [← hpdef, hneed, hrun₁]
  simp only
  rw [hrun₂]
  simpa using hrun₃

/-! ## Steps that can fail, before any change -/

/-- Reading a chain from the store reads slots laid out for the payload, or finds a link that
leaves the file or runs too long. -/
theorem loadFrom_cases (d : Disk) (core : BlockFile) (start : Nat) : ∀ (fuel next : Nat) (acc : Chain),
    (∀ b ∈ acc, b.Sized (ChunkSlot.payloadCapacity core.layout)) →
    (∃ c, loadFrom d core start fuel next acc = .ok c ∧ ∀ b ∈ c, b.Sized (ChunkSlot.payloadCapacity core.layout)) ∨
      ∃ n, loadFrom d core start fuel next acc = .error (.corrupt (.blobLink start n))
  | 0, next, _, _ => .inr ⟨next, rfl⟩
  | fuel + 1, next, acc, hacc => by
    by_cases h0 : next = 0
    · refine .inl ⟨acc.reverse, by simp [loadFrom, h0], fun b hb => hacc b (List.mem_reverse.mp hb)⟩
    by_cases hbad : next > core.latest ∨ acc.length ≥ core.latest
    · exact .inr ⟨next, by simp [loadFrom, h0, hbad]⟩
    -- a good link: read the slot and go on
    have hstep : loadFrom d core start (fuel + 1) next acc =
        loadFrom d core start fuel (ChunkSlot.load d core.sid core.layout next).next.value
          (ChunkSlot.load d core.sid core.layout next :: acc) := by
      simp only [not_or] at hbad
      simp [loadFrom, h0, hbad.1, hbad.2]
    rw [hstep]
    apply loadFrom_cases d core start fuel
    intro b hb
    rcases List.mem_cons.mp hb with rfl | hb
    · exact ChunkSlot.sized_load _ _ _ _
    · exact hacc b hb

/-- Taking a blob out of a tidy file answers a chain laid out for the payload, leaving a tidy file
with the same file part; or it finds a broken stored chain, and nothing changes. -/
theorem Tidy.take (h : f.Tidy) (x : Nat) :
    (∃ c f', BlobFile.take x (d, f) = .ok c (d, f') ∧ (∀ b ∈ c, b.Sized (ChunkSlot.payloadCapacity f.core.layout)) ∧
        f'.core = f.core) ∨
      ∃ n, BlobFile.take x (d, f) = .error (.corrupt (.blobLink x n)) (d, f) := by
  cases hc : f.records[x]? with
  | some c => exact .inl ⟨c, _, take_cached hc, h.sized x c hc, rfl⟩
  | none =>
    rw [take_uncached hc]
    rcases loadFrom_cases d f.core x (f.core.latest + 1) x [] (by simp) with ⟨c, hl, hs⟩ | ⟨n, hl⟩
    · rw [hl]
      exact .inl ⟨c, f, rfl, hs, rfl⟩
    · rw [hl]
      exact .inr ⟨n, rfl⟩

/-! ## Refused writes -/

/-- What a blob file owes a refused write: every add, update and delete that fails leaves the
file and its store exactly as they were, refused by one of its checks or by a broken stored chain. -/
def RefusesCleanly (d : Disk) (f : BlobFile) : Prop :=
  (∀ data id?, FailsCleanly (BlobFile.add data id? (d, f)) (· = (d, f)) (Refusal f.core id? none)) ∧
  (∀ x data, FailsCleanly (BlobFile.update x data (d, f)) (· = (d, f))
    (fun e => Refusal f.core (some x) none e ∨ ∃ n, e = .corrupt (.blobLink x n))) ∧
  ∀ x, FailsCleanly (BlobFile.delete x (d, f)) (· = (d, f))
    (fun e => Refusal f.core none none e ∨ ∃ n, e = .corrupt (.blobLink x n))

theorem ensureOpen_disposed (h : f.core.disposed = true) :
    onCore BlockFile.ensureOpen (d, f) = .error (.disposed f.core.label) (d, f) :=
  FileOp.zoom_error (BlockFile.ensureOpen_disposed h)

/-- Once its id is claimed, a blob goes in: a new first slot, written over. -/
theorem Tidy.add_of_claim (h : f.Tidy) (hopen : f.core.disposed = false) {id? : Option Nat} {x : Nat}
    {a : Allocator} (hclaim : onCore (BlockFile.claim id?) (d, f) = .ok x (d, f.withAllocator a))
    (data : List UInt8) : ∃ f', BlobFile.add data id? (d, f) = .ok x (d, f') := by
  obtain ⟨first, hfirst, -, hsized, -⟩ := ChunkSlot.create_nil f.core.layout x
  obtain ⟨a', c', hwrite⟩ := write_ok d (f.withAllocator a) (c := [first]) (by simpa using hsized)
    h.payload_pos h.payload_lt data
  refine ⟨{ f.withAllocator a' with records := f.records.insert x c' }, ?_⟩
  unfold BlobFile.add
  rw [FileOp.bind_ok (ensureOpen_eq hopen), FileOp.bind_ok hclaim]
  simp only [bind, EStateM.bind, FileOp.self, layout_withAllocator, hfirst]
  rw [hwrite]
  rfl

theorem Tidy.add_fails_cleanly (h : f.Tidy) (data : List UInt8) (id? : Option Nat) :
    FailsCleanly (BlobFile.add data id? (d, f)) (· = (d, f)) (Refusal f.core id? none) := by
  cases hopen : f.core.disposed
  case true =>
    unfold BlobFile.add
    rw [FileOp.bind_error (ensureOpen_disposed hopen)]
    exact FailsCleanly.of_error rfl (.disposed hopen)
  case false =>
    cases id? with
    | none =>
      have hclaim : onCore (BlockFile.claim none) (d, f) =
          .ok _ (d, f.withAllocator (f.core.allocator.nextFreeId d f.core.sid).2) := nextFreeId_eq
      obtain ⟨f', hrun⟩ := h.add_of_claim hopen hclaim data
      rw [hrun]
      exact FailsCleanly.of_ok
    | some x =>
      cases ha : f.core.allocator.tryUse d f.core.sid x with
      | none =>
        have hclaim : onCore (BlockFile.claim (some x)) (d, f) = .error (.idInUse x) (d, f) := by
          rw [claim_eq, ha]
        unfold BlobFile.add
        rw [FileOp.bind_ok (ensureOpen_eq hopen), FileOp.bind_error hclaim]
        exact FailsCleanly.of_error rfl (.idInUse rfl (Allocator.tryUse_eq_none ha))
      | some a =>
        have hclaim : onCore (BlockFile.claim (some x)) (d, f) = .ok x (d, f.withAllocator a) := by
          rw [claim_eq, ha]
        obtain ⟨f', hrun⟩ := h.add_of_claim hopen hclaim data
        rw [hrun]
        exact FailsCleanly.of_ok

theorem Tidy.update_fails_cleanly (h : f.Tidy) (x : Nat) (data : List UInt8) :
    FailsCleanly (BlobFile.update x data (d, f)) (· = (d, f))
      (fun e => Refusal f.core (some x) none e ∨ ∃ n, e = .corrupt (.blobLink x n)) := by
  cases hopen : f.core.disposed
  case true =>
    unfold BlobFile.update
    rw [FileOp.bind_error (ensureOpen_disposed hopen)]
    exact FailsCleanly.of_error rfl (.inl (.disposed hopen))
  case false =>
    unfold BlobFile.update
    rw [FileOp.bind_ok (ensureOpen_eq hopen)]
    by_cases hlive : f.core.isAllocated x = true
    · simp only [bind, EStateM.bind, FileOp.self, hlive, Bool.not_true, Bool.false_eq_true, if_false]
      rcases h.take x with ⟨c, f₁, htake, hc, hcore⟩ | ⟨n, htake⟩
      · -- the chain is out: writing over it and putting it back cannot fail
        obtain ⟨a, c', hwrite⟩ := write_ok d f₁ (by rw [hcore]; exact hc) (by rw [hcore]; exact h.payload_pos)
          (by rw [hcore]; exact h.payload_lt) data
        rw [htake]
        simp only
        rw [hwrite]
        exact FailsCleanly.of_ok
      · rw [htake]
        exact FailsCleanly.of_error rfl (.inr ⟨n, rfl⟩)
    · -- an id not allocated: the update is an add under it
      simp only [bind, EStateM.bind, FileOp.self, hlive, Bool.not_false, if_true]
      exact ((h.add_fails_cleanly data (some x)).discard).mono (fun _ hst => hst) fun _ he => .inl he

theorem Tidy.delete_fails_cleanly (h : f.Tidy) (x : Nat) :
    FailsCleanly (BlobFile.delete x (d, f)) (· = (d, f))
      (fun e => Refusal f.core none none e ∨ ∃ n, e = .corrupt (.blobLink x n)) := by
  cases hopen : f.core.disposed
  case true =>
    unfold BlobFile.delete
    rw [FileOp.bind_error (ensureOpen_disposed hopen)]
    exact FailsCleanly.of_error rfl (.inl (.disposed hopen))
  case false =>
    unfold BlobFile.delete
    rw [FileOp.bind_ok (ensureOpen_eq hopen)]
    by_cases hlive : f.core.isAllocated x = true
    · simp only [bind, EStateM.bind, FileOp.self, hlive, Bool.not_true, Bool.false_eq_true, if_false]
      rcases h.take x with ⟨c, f₁, htake, -, -⟩ | ⟨n, htake⟩
      · obtain ⟨a, hrelease⟩ := releaseChain_ok (d := d) c f₁
        rw [htake]
        simp only
        rw [hrelease]
        exact FailsCleanly.of_ok
      · rw [htake]
        exact FailsCleanly.of_error rfl (.inr ⟨n, rfl⟩)
    · simp only [bind, EStateM.bind, FileOp.self, hlive, Bool.not_false, if_true, pure, EStateM.pure]
      exact FailsCleanly.of_ok

theorem Tidy.refusesCleanly (h : f.Tidy) : f.RefusesCleanly d :=
  ⟨h.add_fails_cleanly, h.update_fails_cleanly, h.delete_fails_cleanly⟩

end BlobFile

end ColumnDb.Blob

namespace ColumnDb.Blob

open ColumnDb.Slot ColumnDb.Disk

namespace TextFile

variable {d : Disk} {t : TextFile} {T : Nat → Option String} {P : Nat → Option Nat}
  {B : Nat → Option (List UInt8)}

/-- What a text file owes a refused add: every allowed add that fails names an id that is 0 or
holds a text, and leaves the store as it was, the pointer file exactly as it was, and the blob
file holding the same blobs. -/
def AddRefusesCleanly (d : Disk) (t : TextFile) (T : Nat → Option String) (B : Nat → Option (List UInt8)) :
    Prop :=
  ∀ s id?, (TextEvent.add s id?).Allowed t →
    FailsCleanly (TextFile.add s id? (d, t))
      (fun st => st.1 = d ∧ st.2.pointers = t.pointers ∧ st.2.blobs.Stores d B)
      (fun e => ∃ x, id? = some x ∧ (x = 0 ∨ (T x).isSome) ∧ e = .idInUse x)

theorem Holds.addRefusesCleanly (h : t.Holds d T P B) : t.AddRefusesCleanly d T B := by
  intro s id? he
  obtain ⟨hroom, hroom', hlt⟩ := TextEvent.allowed_add he
  rcases h.add hroom hroom' hlt with ⟨x, t', hrun, -⟩ | ⟨x, t', hid, hx, hrun, ht', hptr⟩
  · rw [hrun]
    exact FailsCleanly.of_ok
  · rw [hrun]
    exact FailsCleanly.of_error ⟨rfl, hptr, ht'.blobs⟩ ⟨x, hid, hx, rfl⟩

end TextFile

end ColumnDb.Blob

namespace ColumnDb

open ColumnDb.Slot ColumnDb.Disk ColumnDb.Tree ColumnDb.Data ColumnDb.Blob

/-- A refused write leaves its file as it was. A tree file that holds its rows, or is disposed,
refuses an allowed add, update or delete with its store and itself unchanged; so does a data file,
but for slots read into its cache, which change nothing it reads or writes; a tidy blob file
refuses any write with nothing changed, also on a broken stored chain; and a text file refuses an
allowed add only for an id that is 0 or holds a text, with its pointer file unchanged and its blob
file holding the same blobs. -/
theorem refused_writes_change_nothing {dt df db dx : Disk} {t : TreeFile} {R : List (Nat × Value)}
    {f : DataFile} {M : Nat → Option Value} {b : BlobFile} {x : TextFile} {T : Nat → Option String}
    {P : Nat → Option Nat} {B : Nat → Option (List UInt8)}
    (ht : t.Rows dt R ∨ t.core.disposed = true) (hf : f.Holds df M ∨ f.core.disposed = true) (hb : b.Tidy)
    (hx : x.Holds dx T P B) :
    t.RefusesCleanly dt ∧ f.RefusesCleanly df ∧ b.RefusesCleanly db ∧ x.AddRefusesCleanly dx T B :=
  ⟨ht.elim TreeFile.Rows.refusesCleanly TreeFile.refusesCleanly_of_disposed,
    hf.elim DataFile.Holds.refusesCleanly DataFile.refusesCleanly_of_disposed, hb.refusesCleanly,
    hx.addRefusesCleanly⟩

/-- Files opened on empty stores: a tree file of 64-bit integers, a data file of pointers, a blob
file with slots of 20 bytes, and a text file over the last two. -/
theorem refused_writes_change_nothing_on_new_files :
    TreeFile.RefusesCleanly { stores := #[ByteArray.empty] }
        ⟨⟨"t", ⟨0, none⟩, ⟨20, 64⟩, Cell.create 8 4 64, Allocator.create ⟨20, 64⟩, true, false⟩, .int .i64,
          Cell.create 12 8 0, ∅⟩ ∧
      DataFile.RefusesCleanly { stores := #[ByteArray.empty] }
        ⟨⟨"pointers", ⟨0, none⟩, ⟨dataHeader, pointerCapacity⟩, Cell.create 8 4 pointerCapacity,
          Allocator.create ⟨dataHeader, pointerCapacity⟩, true, false⟩, .int .u64, ∅⟩ ∧
      BlobFile.RefusesCleanly { stores := #[ByteArray.empty] }
        ⟨⟨"blobs", ⟨0, none⟩, ⟨blobHeader, 20⟩, Cell.create 8 4 20, Allocator.create ⟨blobHeader, 20⟩, true, false⟩, ∅⟩ ∧
      TextFile.AddRefusesCleanly { stores := #[ByteArray.empty, ByteArray.empty] }
        ⟨⟨⟨"pointers", ⟨0, none⟩, ⟨dataHeader, pointerCapacity⟩, Cell.create 8 4 pointerCapacity,
          Allocator.create ⟨dataHeader, pointerCapacity⟩, true, false⟩, .int .u64, ∅⟩,
        ⟨⟨"blobs", ⟨1, none⟩, ⟨blobHeader, 20⟩, Cell.create 8 4 20, Allocator.create ⟨blobHeader, 20⟩, true, false⟩, ∅⟩⟩
        (fun _ => none) (fun _ => none) :=
  refused_writes_change_nothing
    (.inl (@TreeFile.rows_open_new { stores := #[ByteArray.empty] } _ ⟨0, none⟩ "t" (.int .i64) 64 (by decide) (by decide) (by decide) rfl).1)
    (.inl (@DataFile.holds_open_new { stores := #[ByteArray.empty] } _ ⟨0, none⟩ "pointers" (.int .u64) pointerCapacity (by decide) (by decide)
      (by decide) (by decide) rfl).1)
    (@BlobFile.stores_open { stores := #[ByteArray.empty] } _ ⟨0, none⟩ "blobs" 20 (by decide) (by decide) (by decide) (by decide) rfl).1.tidy
    (@TextFile.holds_open_new { stores := #[ByteArray.empty, ByteArray.empty] } _ ⟨0, none⟩ ⟨1, none⟩ "pointers" "blobs" 20 (by decide) (by decide)
      (by decide) (by decide) (by decide) (by decide) rfl)

end ColumnDb
