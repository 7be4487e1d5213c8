import Mathlib
import ColumnDb.Proofs.TextModel

/-!
# Files opened again answer as before

A program that disposes of a file, which flushes it, and opens its store again with the same
capacity, goes on as if it had kept the file open: every later call answers the same. For each kind
of file the calls a program makes, its own operations, reads of its ids, flushes and reopenings,
run as on a model of what the program sees (`Simulates`), and reopening changes nothing in the
model; so it changes no later answer (`Simulates.insert_answers`), and opening the store the file
itself wrote never fails.

Tree files answer range scans as well as the events of their list model (`TreeCall`). For data,
blob and text files the calls are those of `Call`. A text file is opened on two empty stores, one
for its pointers and one for its blobs. `reopened_files_answer_alike` gathers the four kinds.
-/

set_option autoImplicit false

namespace ColumnDb

open ColumnDb.Slot ColumnDb.Disk

/-- A file part opened on an empty store has handed out no id. -/
theorem Slot.BlockFile.pool_open_new {d : Disk} {store : StoreRef} {label : String} {header slotHeader capacity : Nat}
    {c : BlockFile} (hempty : d.size store.store = 0)
    (h : BlockFile.open d store label header slotHeader capacity = .ok c) : c.allocator.pool = ⟨0, []⟩ := by
  unfold BlockFile.open at h
  split at h
  · cases h
  · simp only [hempty, beq_self_eq_true, if_true, Except.ok.injEq] at h
    subst h
    rfl

/-! ## Tree files -/

namespace Tree

/-- A call on a tree file: an event of its list model, a range scan, or a read of its ids. -/
inductive TreeCall where
  | row (e : RowEvent)
  | range (cmp : Comparison) (o : Value)
  | read (q : Probe)

namespace TreeCall

/-- Runs a call on a tree file and its store. -/
def onFile : TreeCall → Disk × TreeFile → Reply Reading RowAnswer × (Disk × TreeFile)
  | .row e, st => (.op (e.onFile st).1, (e.onFile st).2)
  | .range cmp o, st => (.op (RowEvent.result .rows (TreeFile.range cmp o st)).1,
      (RowEvent.result .rows (TreeFile.range cmp o st)).2)
  | .read q, st => (.read (q.onCore st.2.core), st)

/-- Runs a call on the list model, for payloads of at most `cap` bytes: a range scan answers the
rows its comparison accepts, in order. -/
def onModel (cap : Nat) : TreeCall → RowModel → Reply Reading RowAnswer × RowModel
  | .row e, m => (.op (e.onModel cap m).1, (e.onModel cap m).2)
  | .range cmp o, m => (.op (.ok (.rows (m.rows.filter fun row => cmp.accepts (row.2.compare o)))), m)
  | .read q, m => (.read (q.onPool m.pool), m)

/-- The calls a program may make on a file of values of kind `k`: the events the list model
allows, and range scans against an operand of the kind. -/
def Allowed (k : ValueKind) (m : RowModel) : TreeCall → Prop
  | .row e => e.Allowed k m.pool
  | .range _ o => o.kind = k
  | .read _ => True

instance (k : ValueKind) (m : RowModel) : (c : TreeCall) → Decidable (Allowed k m c)
  | .row e => RowEvent.decAllowed k m.pool e
  | .range _ _ => inferInstanceAs (Decidable (_ = _))
  | .read _ => inferInstanceAs (Decidable True)

/-- A tree file standing for its list model: it holds the model's rows with its pool, of kind
`k` with payloads of `cap` bytes. -/
def Tracks (k : ValueKind) (cap : Nat) (st : Disk × TreeFile) (m : RowModel) : Prop :=
  st.2.Rows st.1 m.rows ∧ st.2.core.allocator.pool = m.pool ∧ st.2.kind = k ∧
    NodeSlot.payloadCapacity st.2.core.layout = cap

/-- A tree file standing for a model runs every allowed call as the model does: its events by
`step_rows`, a range scan by `Rows.range`. -/
theorem simulates (k : ValueKind) (cap : Nat) : Simulates onFile (onModel cap) (Allowed k) (Tracks k cap) := by
  intro st m c hR hc
  obtain ⟨d, t⟩ := st
  obtain ⟨pool, R⟩ := m
  obtain ⟨h, hpool, hk, hcap⟩ : t.Rows d R ∧ t.core.allocator.pool = pool ∧ t.kind = k ∧
      NodeSlot.payloadCapacity t.core.layout = cap := hR
  subst hpool hk hcap
  cases c with
  | row e =>
    obtain ⟨hans, hrows, hpool', hsame⟩ := RowEvent.step_rows h hc
    exact ⟨by simp only [onFile, onModel, hans], hrows, hpool', hsame.kind, congrArg NodeSlot.payloadCapacity hsame.layout⟩
  | range cmp o =>
    obtain ⟨t', hrun, hrows, hkeeps⟩ := h.range cmp hc
    have hfile : onFile (.range cmp o) (d, t) =
        (.op (.ok (.rows (R.filter fun row => cmp.accepts (row.2.compare o)))), (d, t')) := by
      simp only [onFile, hrun, RowEvent.result]
    rw [hfile]
    refine ⟨rfl, hrows, ?_, hkeeps.kind, ?_⟩
    · show t'.core.allocator.pool = t.core.allocator.pool
      rw [hkeeps.core]
    · show NodeSlot.payloadCapacity t'.core.layout = NodeSlot.payloadCapacity t.core.layout
      rw [hkeeps.core]
  | read q =>
    have hfile : onFile (.read q) (d, t) = (.read (q.onPool t.core.allocator.pool), (d, t)) := by
      simp only [onFile, Probe.onCore_eq_onPool]
    have hmodel : onModel (NodeSlot.payloadCapacity t.core.layout) (.read q) ⟨t.core.allocator.pool, R⟩ =
        (.read (q.onPool t.core.allocator.pool), ⟨t.core.allocator.pool, R⟩) := rfl
    rw [hfile, hmodel]
    exact ⟨rfl, h, rfl, rfl, rfl⟩

/-- A tree file opened on an empty store stands for the model with no row and no id handed out. -/
theorem tracks_open_new {d : Disk} {store : StoreRef} {label : String} {k : ValueKind} {capacity : Nat}
    {t : TreeFile} (hcap : capacity < Nat.pow 256 4) (hs : store.store < d.stores.size)
    (hempty : d.size store.store = 0) (hopen : TreeFile.open d store label k capacity = .ok t) :
    Tracks k (capacity - nodeHeader) (d, t) ⟨⟨0, []⟩, []⟩ := by
  obtain ⟨hrows, hkind⟩ := TreeFile.rows_open_new hcap hs hempty hopen
  unfold TreeFile.open at hopen
  cases hc : BlockFile.open d store label treeHeader nodeHeader capacity with
  | error e =>
    rw [hc] at hopen
    cases hopen
  | ok core =>
    obtain ⟨-, hlayout, -, -⟩ := BlockFile.holds_open (by decide) (by decide) hcap hs hc
    rw [hc] at hopen
    cases hopen
    exact ⟨hrows, BlockFile.pool_open_new hempty hc, hkind, by rw [hlayout]; rfl⟩

end TreeCall

/-- A tree file of values of one kind opened on an empty store, run through calls `es₁`, disposed
of and opened again, then run through `es₂`, answers every call of `es₂` as the same run without
the reopening; the reopening itself succeeds. -/
theorem TreeCall.reopen_keeps_answers {d : Disk} {store : StoreRef} {label : String} {k : ValueKind}
    {capacity : Nat} {t : TreeFile} (hcap : capacity < Nat.pow 256 4) (hs : store.store < d.stores.size)
    (hempty : d.size store.store = 0) (hopen : TreeFile.open d store label k capacity = .ok t)
    (es₁ es₂ : List TreeCall)
    (hrun : AllowedAlong (onModel (capacity - nodeHeader)) (Allowed k) ⟨⟨0, []⟩, []⟩ (es₁ ++ es₂)) :
    (runSteps onFile (es₁ ++ .row .reopen :: es₂) (d, t)).1 =
      (runSteps onFile es₁ (d, t)).1 ++ .op (.ok .done) :: (runSteps onFile (es₁ ++ es₂) (d, t)).1.drop es₁.length :=
  (simulates k _).insert_answers (r := .row .reopen) (fun _ => rfl) (fun _ => trivial) es₁ es₂
    (tracks_open_new hcap hs hempty hopen) hrun

end Tree

/-! ## Data files -/

namespace Data.DataEvent

/-- A data file opened on an empty store stands for the model with no value and no id handed
out. -/
theorem tracks_open_new {d : Disk} {store : StoreRef} {label : String} {k : ValueKind} {capacity : Nat}
    {f : DataFile} (hcap : chunkHeader < capacity) (hcap' : capacity < Nat.pow 256 4)
    (hs : store.store < d.stores.size) (hempty : d.size store.store = 0)
    (hopen : DataFile.open d store label k capacity = .ok f) :
    Tracks k (capacity - chunkHeader) (d, f) ⟨⟨0, []⟩, fun _ => none⟩ := by
  obtain ⟨hholds, hkind, hpay⟩ := DataFile.holds_open_new hcap hcap' hs hempty hopen
  refine ⟨⟨hholds, ?_⟩, hkind, hpay⟩
  unfold DataFile.open at hopen
  cases hc : BlockFile.open d store label dataHeader chunkHeader capacity with
  | error e =>
    rw [hc] at hopen
    cases hopen
  | ok core =>
    rw [hc] at hopen
    cases hopen
    exact BlockFile.pool_open_new hempty hc

/-- A data file of values of one kind opened on an empty store, run through calls `es₁`, disposed
of and opened again, then run through `es₂`, answers every call of `es₂` as the same run without
the reopening; the reopening itself succeeds. -/
theorem reopen_keeps_answers {d : Disk} {store : StoreRef} {label : String} {k : ValueKind} {capacity : Nat}
    {f : DataFile} (hcap : chunkHeader < capacity) (hcap' : capacity < Nat.pow 256 4)
    (hs : store.store < d.stores.size) (hempty : d.size store.store = 0)
    (hopen : DataFile.open d store label k capacity = .ok f) (es₁ es₂ : List (Call Probe DataEvent))
    (hrun : AllowedAlong (callModel (capacity - chunkHeader)) (Call.Allowed (AllowedOn k)) ⟨⟨0, []⟩, fun _ => none⟩
      (es₁ ++ es₂)) :
    (runSteps callFile (es₁ ++ .reopen :: es₂) (d, f)).1 =
      (runSteps callFile es₁ (d, f)).1 ++ .done (.ok ()) :: (runSteps callFile (es₁ ++ es₂) (d, f)).1.drop es₁.length :=
  (calls_simulate k _).insert_answers (r := .reopen) (fun _ => rfl) (fun _ => trivial) es₁ es₂
    (tracks_open_new hcap hcap' hs hempty hopen) hrun

end Data.DataEvent

/-! ## Blob files -/

namespace Blob.BlobEvent

/-- A blob file opened on an empty store, run through calls `es₁` that name blobs only by their
first slot, disposed of and opened again, then run through `es₂`, answers every call of `es₂` as
the same run without the reopening; the reopening itself succeeds. -/
theorem reopen_keeps_answers {d : Disk} {store : StoreRef} {label : String} {capacity : Nat} {f : BlobFile}
    (hcap : chunkHeader < capacity) (hcap' : capacity < Nat.pow 256 4) (hs : store.store < d.stores.size)
    (hempty : d.size store.store = 0) (hopen : BlobFile.open d store label capacity = .ok f)
    (es₁ es₂ : List (Call Probe BlobEvent))
    (hrun : AllowedAlong (callModel (capacity - chunkHeader)) (Call.Allowed (AllowedOn (capacity - chunkHeader)))
      ⟨⟨0, []⟩, fun _ => [], fun _ => none⟩ (es₁ ++ es₂)) :
    (runSteps callFile (es₁ ++ .reopen :: es₂) (d, f)).1 =
      (runSteps callFile es₁ (d, f)).1 ++ .done (.ok ()) :: (runSteps callFile (es₁ ++ es₂) (d, f)).1.drop es₁.length :=
  (calls_simulate _).insert_answers (r := .reopen) (fun _ => rfl) (fun _ => trivial) es₁ es₂
    (BlobFile.models_open_new hcap hcap' hs hempty hopen) hrun

end Blob.BlobEvent

/-! ## Text files -/

/-- A data file lies on the store it was opened on. -/
theorem Data.DataFile.store_open {d : Disk} {store : StoreRef} {label : String} {kind : ValueKind}
    {capacity : Nat} {f : DataFile} (hcap : capacity < Nat.pow 256 4) (hs : store.store < d.stores.size)
    (h : DataFile.open d store label kind capacity = .ok f) : f.core.store = store := by
  unfold DataFile.open at h
  cases hc : BlockFile.open d store label dataHeader chunkHeader capacity with
  | error e =>
    rw [hc] at h
    cases h
  | ok core =>
    rw [hc] at h
    cases h
    exact (BlockFile.holds_open (by decide) (by decide) hcap hs hc).2.2.1

/-- A blob file lies on the store it was opened on. -/
theorem Blob.BlobFile.store_open {d : Disk} {store : StoreRef} {label : String} {capacity : Nat} {f : BlobFile}
    (hcap : capacity < Nat.pow 256 4) (hs : store.store < d.stores.size)
    (h : BlobFile.open d store label capacity = .ok f) : f.core.store = store := by
  unfold BlobFile.open at h
  cases hc : BlockFile.open d store label blobHeader chunkHeader capacity with
  | error e =>
    rw [hc] at h
    cases h
  | ok core =>
    rw [hc] at h
    cases h
    exact (BlockFile.holds_open (by decide) (by decide) hcap hs hc).2.2.1

namespace Blob.TextEvent

/-- A text file opened on two empty stores stands for the model with no row and no blob. -/
theorem tracks_open_new {d : Disk} {pointers blobs : StoreRef} {pointerLabel blobLabel : String} {capacity : Nat}
    {t : TextFile} (hcap : chunkHeader < capacity) (hcap' : capacity < Nat.pow 256 4)
    (hp : pointers.store < d.stores.size) (hb : blobs.store < d.stores.size) (hpb : pointers.store ≠ blobs.store)
    (hpe : d.size pointers.store = 0) (hbe : d.size blobs.store = 0)
    (hopen : TextFile.open d pointers blobs pointerLabel blobLabel capacity = .ok t) :
    Tracks (capacity - chunkHeader) (d, t) ⟨⟨⟨0, []⟩, fun _ => none⟩, ⟨⟨0, []⟩, fun _ => [], fun _ => none⟩⟩ := by
  unfold TextFile.open at hopen
  cases hpf : Data.DataFile.open d pointers pointerLabel (.int .u64) pointerCapacity with
  | error e =>
    rw [hpf] at hopen
    cases hopen
  | ok pf =>
    cases hbf : BlobFile.open d blobs blobLabel capacity with
    | error e =>
      simp only [hpf, hbf, bind, Except.bind] at hopen
      cases hopen
    | ok bf =>
      simp only [hpf, hbf, bind, Except.bind, pure, Except.pure, Except.ok.injEq] at hopen
      subst hopen
      obtain ⟨hbm, hpay⟩ := BlobFile.models_open_new hcap hcap' hb hbe hbf
      refine ⟨Data.DataEvent.tracks_open_new (by decide) (by decide) hp hpe hpf, ⟨hbm, hpay⟩, ?_,
        ⟨fun _ _ h _ => (by cases h), fun _ _ _ _ h _ _ _ => (by cases h)⟩⟩
      -- the two files lie on the two stores they were opened on
      show pf.core.store.store ≠ bf.core.store.store
      rw [Data.DataFile.store_open (by decide) hp hpf, BlobFile.store_open hcap' hb hbf]
      exact hpb

/-- A text file opened on two empty stores, run through calls `es₁`, disposed of and opened again,
then run through `es₂`, answers every call of `es₂` as the same run without the reopening; the
reopening itself succeeds. -/
theorem reopen_keeps_answers {d : Disk} {pointers blobs : StoreRef} {pointerLabel blobLabel : String}
    {capacity : Nat} {t : TextFile} (hcap : chunkHeader < capacity) (hcap' : capacity < Nat.pow 256 4)
    (hp : pointers.store < d.stores.size) (hb : blobs.store < d.stores.size) (hpb : pointers.store ≠ blobs.store)
    (hpe : d.size pointers.store = 0) (hbe : d.size blobs.store = 0)
    (hopen : TextFile.open d pointers blobs pointerLabel blobLabel capacity = .ok t)
    (es₁ es₂ : List (Call TextProbe TextEvent))
    (hrun : AllowedAlong (callModel (capacity - chunkHeader)) (Call.Allowed (AllowedOn (capacity - chunkHeader)))
      ⟨⟨⟨0, []⟩, fun _ => none⟩, ⟨⟨0, []⟩, fun _ => [], fun _ => none⟩⟩ (es₁ ++ es₂)) :
    (runSteps callFile (es₁ ++ .reopen :: es₂) (d, t)).1 =
      (runSteps callFile es₁ (d, t)).1 ++ .done (.ok ()) :: (runSteps callFile (es₁ ++ es₂) (d, t)).1.drop es₁.length :=
  (calls_simulate _).insert_answers (r := .reopen) (fun _ => rfl) (fun _ => trivial) es₁ es₂
    (tracks_open_new hcap hcap' hp hb hpb hpe hbe hopen) hrun

end Blob.TextEvent

/-! ## Every kind of file -/

open ColumnDb.Tree ColumnDb.Data ColumnDb.Blob in
/-- Every kind of file, opened on empty stores, answers alike whether or not it is disposed of and
opened again between two runs of calls: tree files of values of any kind, data files, blob files
whose calls name blobs only by their first slot, and text files. Run through `es₁`, reopened, then
run through `es₂`, a file answers `es₁` as it would anyway, `done` with no error for the reopening,
and every call of `es₂` as the run of `es₁` then `es₂` without the reopening. The calls are the
file's own operations (reads, adds, updates, deletes, and range scans of trees), reads of its ids
(whether an id is allocated, the allocated ids, the latest id, how many are free), flushes and
reopenings, each allowed by the model: values of the file's kind that lie in it, and ids and blobs
that fit their eight-byte links. -/
theorem reopened_files_answer_alike :
    (∀ {d : Disk} {store : StoreRef} {label : String} {k : ValueKind} {capacity : Nat} {t : TreeFile},
      capacity < Nat.pow 256 4 → store.store < d.stores.size → d.size store.store = 0 →
      TreeFile.open d store label k capacity = .ok t → ∀ es₁ es₂ : List TreeCall,
      AllowedAlong (TreeCall.onModel (capacity - nodeHeader)) (TreeCall.Allowed k) ⟨⟨0, []⟩, []⟩ (es₁ ++ es₂) →
      (runSteps TreeCall.onFile (es₁ ++ .row .reopen :: es₂) (d, t)).1 =
        (runSteps TreeCall.onFile es₁ (d, t)).1 ++ .op (.ok .done) ::
          (runSteps TreeCall.onFile (es₁ ++ es₂) (d, t)).1.drop es₁.length) ∧
    (∀ {d : Disk} {store : StoreRef} {label : String} {k : ValueKind} {capacity : Nat} {f : DataFile},
      chunkHeader < capacity → capacity < Nat.pow 256 4 → store.store < d.stores.size → d.size store.store = 0 →
      DataFile.open d store label k capacity = .ok f → ∀ es₁ es₂ : List (Call Probe DataEvent),
      AllowedAlong (DataEvent.callModel (capacity - chunkHeader)) (Call.Allowed (DataEvent.AllowedOn k))
        ⟨⟨0, []⟩, fun _ => none⟩ (es₁ ++ es₂) →
      (runSteps DataEvent.callFile (es₁ ++ .reopen :: es₂) (d, f)).1 =
        (runSteps DataEvent.callFile es₁ (d, f)).1 ++ .done (.ok ()) ::
          (runSteps DataEvent.callFile (es₁ ++ es₂) (d, f)).1.drop es₁.length) ∧
    (∀ {d : Disk} {store : StoreRef} {label : String} {capacity : Nat} {f : BlobFile},
      chunkHeader < capacity → capacity < Nat.pow 256 4 → store.store < d.stores.size → d.size store.store = 0 →
      BlobFile.open d store label capacity = .ok f → ∀ es₁ es₂ : List (Call Probe BlobEvent),
      AllowedAlong (BlobEvent.callModel (capacity - chunkHeader)) (Call.Allowed (BlobEvent.AllowedOn (capacity - chunkHeader)))
        ⟨⟨0, []⟩, fun _ => [], fun _ => none⟩ (es₁ ++ es₂) →
      (runSteps BlobEvent.callFile (es₁ ++ .reopen :: es₂) (d, f)).1 =
        (runSteps BlobEvent.callFile es₁ (d, f)).1 ++ .done (.ok ()) ::
          (runSteps BlobEvent.callFile (es₁ ++ es₂) (d, f)).1.drop es₁.length) ∧
    (∀ {d : Disk} {pointers blobs : StoreRef} {pointerLabel blobLabel : String} {capacity : Nat} {t : TextFile},
      chunkHeader < capacity → capacity < Nat.pow 256 4 → pointers.store < d.stores.size →
      blobs.store < d.stores.size → pointers.store ≠ blobs.store → d.size pointers.store = 0 → d.size blobs.store = 0 →
      TextFile.open d pointers blobs pointerLabel blobLabel capacity = .ok t →
      ∀ es₁ es₂ : List (Call TextProbe TextEvent),
      AllowedAlong (TextEvent.callModel (capacity - chunkHeader)) (Call.Allowed (TextEvent.AllowedOn (capacity - chunkHeader)))
        ⟨⟨⟨0, []⟩, fun _ => none⟩, ⟨⟨0, []⟩, fun _ => [], fun _ => none⟩⟩ (es₁ ++ es₂) →
      (runSteps TextEvent.callFile (es₁ ++ .reopen :: es₂) (d, t)).1 =
        (runSteps TextEvent.callFile es₁ (d, t)).1 ++ .done (.ok ()) ::
          (runSteps TextEvent.callFile (es₁ ++ es₂) (d, t)).1.drop es₁.length) :=
  ⟨TreeCall.reopen_keeps_answers, DataEvent.reopen_keeps_answers, BlobEvent.reopen_keeps_answers,
    TextEvent.reopen_keeps_answers⟩

open Blob in
/-- A text added to a text file on two empty stores, the file reopened, the text read back with
the latest row id: the run answers as without the reopening. -/
theorem reopened_text_file_answers_alike :
    ∃ t, TextFile.open { stores := #[ByteArray.empty, ByteArray.empty] } ⟨0, none⟩ ⟨1, none⟩ "pointers" "blobs" 20 = .ok t ∧
      (runSteps TextEvent.callFile ([.op (.add "hi" none)] ++ .reopen :: [.op (.get 1), .read (.pointers .latest)])
          ({ stores := #[ByteArray.empty, ByteArray.empty] }, t)).1 =
        (runSteps TextEvent.callFile [.op (.add "hi" none)] ({ stores := #[ByteArray.empty, ByteArray.empty] }, t)).1 ++
          .done (.ok ()) :: (runSteps TextEvent.callFile ([.op (.add "hi" none)] ++ [.op (.get 1), .read (.pointers .latest)])
            ({ stores := #[ByteArray.empty, ByteArray.empty] }, t)).1.drop 1 := by
  refine ⟨?t, ?hopen, reopened_files_answer_alike.2.2.2 (by decide) (by decide) (by decide) (by decide) (by decide)
    (by decide) (by decide) ?hopen _ _ (by decide)⟩
  case hopen => rfl

end ColumnDb
