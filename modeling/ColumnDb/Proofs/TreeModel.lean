import Mathlib
import ColumnDb.Proofs.TreeRows
import ColumnDb.Proofs.Simulation

/-!
# A tree file runs as a list of rows

The list model of a tree file is a pool of ids and the rows in value order (`RowModel`). Each
operation on the model answers as the file's does: adding hands out the pool's id and puts the
row after the last row whose value is not above its own; updating a live row takes it out and
puts it back by the same rule, and updating any other id adds it under that id; deleting takes
the row out and answers whether it was there; reading, asking and listing read the rows; a flush,
and disposing of the file to open its store again, change nothing the model sees.

`RowEvent.step_rows` says that one event on a file holding the model's rows answers as on the
model, and leaves a file holding the rows the model has after it. `RowEvent.runFile_rows`
carries this along any run of events, by induction on the run. A file reached so lists the
model's rows, and a range scan answers the listed rows its comparison accepts, in order
(`RowEvent.runFile_range_filters_all`).
-/

set_option autoImplicit false

namespace ColumnDb

/-- Whether a value lies in its kind can be checked. -/
instance Value.decFits : DecidablePred Value.Fits
  | .bool _ => isTrue trivial
  | .int k n => inferInstanceAs (Decidable (k.fits n = true))
  | .float k bits => inferInstanceAs (Decidable (bits < Nat.pow 256 k.width))
  | .text _ => isTrue trivial

end ColumnDb

namespace ColumnDb.Tree

open ColumnDb.Slot ColumnDb.Disk

/-- An operation on a tree file: add a value under a free or a given id, give a row a new value,
delete a row, read one, ask whether one is there, list them all, flush, or dispose of the file and
open its store again. -/
inductive RowEvent
  | add (v : Value) (id? : Option Nat)
  | update (id : Nat) (v : Value)
  | delete (id : Nat)
  | get (id : Nat)
  | contains (id : Nat)
  | all
  | flush
  | reopen
deriving DecidableEq, Repr

/-- What an operation answers. -/
inductive RowAnswer
  | id (x : Nat)
  | value (v : Option Value)
  | flag (b : Bool)
  | rows (R : List (Nat × Value))
  | done
deriving DecidableEq, Repr

/-- The list model of a tree file: its pool of ids and its rows in value order. -/
structure RowModel where
  pool : IdPool
  rows : List (Nat × Value)

namespace RowModel

variable (m : RowModel) (cap : Nat)

/-- Adding a value, for payloads of at most `cap` bytes: a value too large is refused, so is a
given id the pool cannot take; otherwise the row goes in under the id handed out. -/
def add (v : Value) (id? : Option Nat) : Except FileError Nat × RowModel :=
  if cap < v.encode.length then (.error (.slot (.tooLarge v.encode.length cap)), m)
  else match id? with
    | none => (.ok m.pool.next.1, ⟨m.pool.next.2, insertRow (m.pool.next.1, v) m.rows⟩)
    | some x => match m.pool.claim x with
      | some p => (.ok x, ⟨p, insertRow (x, v) m.rows⟩)
      | none => (.error (.idInUse x), m)

/-- Giving a row a new value: a live row is taken out and put back where its new value goes; any
other id is added with the value. -/
def update (x : Nat) (v : Value) : Except FileError Unit × RowModel :=
  if m.pool.Allocated x then
    if cap < v.encode.length then (.error (.slot (.tooLarge v.encode.length cap)), m)
    else (.ok (), ⟨m.pool, insertRow (x, v) (m.rows.filter (·.1 != x))⟩)
  else ((m.add cap v (some x)).1.map fun _ => (), (m.add cap v (some x)).2)

/-- Deleting a row: it leaves the rows, and its id goes back to the pool. -/
def delete (x : Nat) : Bool × RowModel :=
  (m.rows.any (·.1 == x), ⟨m.pool.release x, m.rows.filter (·.1 != x)⟩)

end RowModel

namespace RowEvent

/-- An event on the model, for payloads of at most `cap` bytes: its answer and the model after. -/
def onModel (cap : Nat) : RowEvent → RowModel → Except FileError RowAnswer × RowModel
  | .add v id?, m => ((m.add cap v id?).1.map .id, (m.add cap v id?).2)
  | .update x v, m => ((m.update cap x v).1.map fun _ => .done, (m.update cap x v).2)
  | .delete x, m => (.ok (.flag (m.delete x).1), (m.delete x).2)
  | .get x, m => (.ok (.value (List.lookup x m.rows)), m)
  | .contains x, m => (.ok (.flag (m.rows.any (·.1 == x))), m)
  | .all, m => (.ok (.rows m.rows), m)
  | .flush, m => (.ok .done, m)
  | .reopen, m => (.ok .done, m)

/-- The answer and the state a step on a file ends in. -/
def result {α : Type} (f : α → RowAnswer) :
    EStateM.Result FileError (Disk × TreeFile) α → Except FileError RowAnswer × (Disk × TreeFile)
  | .ok a st => (.ok (f a), st)
  | .error e st => (.error e, st)

/-- An event on a file and its store: its answer and the store and file after. -/
def onFile : RowEvent → Disk × TreeFile → Except FileError RowAnswer × (Disk × TreeFile)
  | .add v id?, st => result .id (TreeFile.add v id? st)
  | .update x v, st => result (fun _ => .done) (TreeFile.update x v st)
  | .delete x, st => result .flag (TreeFile.delete x st)
  | .get x, st => result .value (TreeFile.get x st)
  | .contains x, st => (.ok (.flag (st.2.contains x)), st)
  | .all, st => result .rows (TreeFile.all st)
  | .flush, st => result (fun _ => .done) (TreeFile.flush st)
  | .reopen, st => result (fun _ => .done) (TreeFile.reopen st)

/-- What the program may do with a file of values of kind `k`: values of that kind that lie in
it, ids of 64 bits, and an id after `latest` when one is handed out with none free. -/
def Allowed (k : ValueKind) (p : IdPool) : RowEvent → Prop
  | .add v none => v.kind = k ∧ v.Fits ∧ (p.free = [] → p.latest + 1 < Nat.pow 256 8)
  | .add v (some x) => v.kind = k ∧ v.Fits ∧ x < Nat.pow 256 8
  | .update x v => v.kind = k ∧ v.Fits ∧ x < Nat.pow 256 8
  | .delete _ | .get _ | .contains _ | .all | .flush | .reopen => True

instance decAllowed (k : ValueKind) (p : IdPool) : (e : RowEvent) → Decidable (e.Allowed k p)
  | .add _ none => inferInstanceAs (Decidable (_ ∧ _ ∧ (_ → _)))
  | .add _ (some _) => inferInstanceAs (Decidable (_ ∧ _ ∧ _))
  | .update _ _ => inferInstanceAs (Decidable (_ ∧ _ ∧ _))
  | .delete _ | .get _ | .contains _ | .all | .flush | .reopen => inferInstanceAs (Decidable True)

/-- Runs events on the model, gathering the answers. -/
def runModel (cap : Nat) : List RowEvent → RowModel → List (Except FileError RowAnswer) × RowModel
  | [], m => ([], m)
  | e :: es, m => ((e.onModel cap m).1 :: (runModel cap es (e.onModel cap m).2).1,
      (runModel cap es (e.onModel cap m).2).2)

/-- Runs events on a file and its store, gathering the answers. -/
def runFile : List RowEvent → Disk × TreeFile → List (Except FileError RowAnswer) × (Disk × TreeFile)
  | [], st => ([], st)
  | e :: es, st => ((e.onFile st).1 :: (runFile es (e.onFile st).2).1, (runFile es (e.onFile st).2).2)

/-- Every event of a run is allowed in the pool it meets. -/
def AllowedRun (k : ValueKind) (cap : Nat) : RowModel → List RowEvent → Prop
  | _, [] => True
  | m, e :: es => e.Allowed k m.pool ∧ AllowedRun k cap (e.onModel cap m).2 es

/-- Whether a run is allowed, by following it on the model. -/
def decAllowedRun (k : ValueKind) (cap : Nat) : (m : RowModel) → (es : List RowEvent) →
    Decidable (AllowedRun k cap m es)
  | _, [] => inferInstanceAs (Decidable True)
  | m, e :: es =>
    have := decAllowedRun k cap (e.onModel cap m).2 es
    inferInstanceAs (Decidable (_ ∧ _))

instance (k : ValueKind) (cap : Nat) (m : RowModel) (es : List RowEvent) : Decidable (AllowedRun k cap m es) :=
  decAllowedRun k cap m es

/-! ## One event -/

variable {d : Disk} {t : TreeFile} {R : List (Nat × Value)}

/-- What a step on a file owes the model's step: the same answer, and a file after that holds the
model's rows with its pool, the same file otherwise. -/
def Agrees (t : TreeFile) (r : Except FileError RowAnswer × (Disk × TreeFile))
    (m : Except FileError RowAnswer × RowModel) : Prop :=
  r.1 = m.1 ∧ r.2.2.Rows r.2.1 m.2.rows ∧ r.2.2.core.allocator.pool = m.2.pool ∧ TreeFile.Same t r.2.2

/-- A step that changes nothing and answers as the model agrees with it. -/
theorem Agrees.unchanged (h : t.Rows d R) {a : Except FileError RowAnswer} :
    Agrees t (a, (d, t)) (a, ⟨t.core.allocator.pool, R⟩) :=
  ⟨rfl, h, rfl, TreeFile.Same.refl t⟩

/-- What an operation on a file owes the model's operation: the file's outcome is the model's
answer with the disk as it was, and the file after holds the model's rows with its pool. -/
def Follows {α : Type} (d : Disk) (t : TreeFile) (r : EStateM.Result FileError (Disk × TreeFile) α)
    (m : Except FileError α × RowModel) : Prop :=
  ∃ t', FileOp.outcome r = (m.1, (d, t')) ∧ t'.Rows d m.2.rows ∧ t'.core.allocator.pool = m.2.pool ∧
    TreeFile.Same t t'

/-- An operation that leaves the file as it was follows the model that does the same. -/
theorem Follows.of_eq {α : Type} (h : t.Rows d R) {r : EStateM.Result FileError (Disk × TreeFile) α}
    {a : Except FileError α} (hr : FileOp.outcome r = (a, (d, t))) : Follows d t r (a, ⟨t.core.allocator.pool, R⟩) :=
  ⟨t, hr, h, rfl, TreeFile.Same.refl t⟩

theorem result_eq_outcome {α : Type} (f : α → RowAnswer) (r : EStateM.Result FileError (Disk × TreeFile) α) :
    result f r = ((FileOp.outcome r).1.map f, (FileOp.outcome r).2) := by
  cases r <;> rfl

/-- An operation that follows the model agrees with it, its answer wrapped as an event's. -/
theorem Follows.agrees {α : Type} {r : EStateM.Result FileError (Disk × TreeFile) α} {m : Except FileError α × RowModel}
    (h : Follows d t r m) (f : α → RowAnswer) : Agrees t (result f r) (m.1.map f, m.2) := by
  obtain ⟨t', hout, hrows, hpool, hsame⟩ := h
  rw [result_eq_outcome, hout]
  exact ⟨rfl, hrows, hpool, hsame⟩

theorem add_follows (h : t.Rows d R) {v : Value} {id? : Option Nat}
    (he : (RowEvent.add v id?).Allowed t.kind t.core.allocator.pool) :
    Follows d t (TreeFile.add v id? (d, t))
      (RowModel.add ⟨t.core.allocator.pool, R⟩ (NodeSlot.payloadCapacity t.core.layout) v id?) := by
  by_cases hlen : NodeSlot.payloadCapacity t.core.layout < v.encode.length
  · simp only [RowModel.add, if_pos hlen, h.add_tooLarge hlen]
    exact Follows.of_eq h rfl
  have hlen' := Nat.le_of_not_lt hlen
  cases id? with
  | none =>
    obtain ⟨hkind, hfits, hroom⟩ := he
    obtain ⟨t', hrun, hrows, hcore, hk⟩ := h.add_of_claims hkind hfits hlen' (h.claims_none hroom)
    simp only [RowModel.add, if_neg hlen, hrun]
    exact ⟨t', rfl, hrows, by rw [hcore]; exact congrArg Prod.snd (h.core.allocator.nextFreeId hroom).1,
      TreeFile.Same.of_core hcore hk⟩
  | some x =>
    obtain ⟨hkind, hfits, hx⟩ := he
    obtain ⟨hmap, -⟩ := h.core.allocator.tryUse hx
    cases ha : t.core.allocator.tryUse d t.core.sid x with
    | none =>
      have hpool : t.core.allocator.pool.claim x = none := by rw [← hmap, ha, Option.map_none]
      simp only [RowModel.add, if_neg hlen, hpool, h.add_taken hlen' ha]
      exact Follows.of_eq h rfl
    | some a =>
      have hpool : t.core.allocator.pool.claim x = some a.pool := by rw [← hmap, ha, Option.map_some]
      obtain ⟨t', hrun, hrows, hcore, hk⟩ := h.add_of_claims hkind hfits hlen' (h.claims_some hx ha)
      simp only [RowModel.add, if_neg hlen, hpool, hrun]
      exact ⟨t', rfl, hrows, by rw [hcore], TreeFile.Same.of_core hcore hk⟩

theorem add_agrees (h : t.Rows d R) {v : Value} {id? : Option Nat}
    (he : (RowEvent.add v id?).Allowed t.kind t.core.allocator.pool) :
    Agrees t ((RowEvent.add v id?).onFile (d, t))
      ((RowEvent.add v id?).onModel (NodeSlot.payloadCapacity t.core.layout) ⟨t.core.allocator.pool, R⟩) :=
  (add_follows h he).agrees RowAnswer.id

theorem update_follows (h : t.Rows d R) {x : Nat} {v : Value}
    (he : (RowEvent.update x v).Allowed t.kind t.core.allocator.pool) :
    Follows d t (TreeFile.update x v (d, t))
      (RowModel.update ⟨t.core.allocator.pool, R⟩ (NodeSlot.payloadCapacity t.core.layout) x v) := by
  obtain ⟨hkind, hfits, hx⟩ := he
  by_cases hlive : t.core.isAllocated x = true
  · have hpool : t.core.allocator.pool.Allocated x := (Allocator.isAllocated_iff _ _).mp hlive
    by_cases hlen : NodeSlot.payloadCapacity t.core.layout < v.encode.length
    · simp only [RowModel.update, if_pos hpool, if_pos hlen, h.update_tooLarge hlive hlen]
      exact Follows.of_eq h rfl
    · obtain ⟨t', hrun, hrows, hcore, hk⟩ := h.update_live hlive hkind hfits (Nat.le_of_not_lt hlen)
      simp only [RowModel.update, if_pos hpool, if_neg hlen, hrun]
      exact ⟨t', rfl, hrows, by rw [hcore], TreeFile.Same.of_core_eq hcore hk⟩
  · -- an id no row has: the update adds it
    have hpool : ¬ t.core.allocator.pool.Allocated x := fun ha => hlive ((Allocator.isAllocated_iff _ _).mpr ha)
    obtain ⟨t', hout, hrows, hpool', hsame⟩ := add_follows h
      (show (RowEvent.add v (some x)).Allowed t.kind t.core.allocator.pool from ⟨hkind, hfits, hx⟩)
    have hmodel : RowModel.update ⟨t.core.allocator.pool, R⟩ (NodeSlot.payloadCapacity t.core.layout) x v =
        ((RowModel.add ⟨t.core.allocator.pool, R⟩ (NodeSlot.payloadCapacity t.core.layout) v (some x)).1.map fun _ => (),
          (RowModel.add ⟨t.core.allocator.pool, R⟩ (NodeSlot.payloadCapacity t.core.layout) v (some x)).2) := by
      simp only [RowModel.update, if_neg hpool]
    rw [hmodel]
    refine ⟨t', ?_, hrows, hpool', hsame⟩
    rw [TreeFile.update_not_live h.opened (Bool.eq_false_iff.mpr hlive), FileOp.outcome_discard, hout]

theorem update_agrees (h : t.Rows d R) {x : Nat} {v : Value}
    (he : (RowEvent.update x v).Allowed t.kind t.core.allocator.pool) :
    Agrees t ((RowEvent.update x v).onFile (d, t))
      ((RowEvent.update x v).onModel (NodeSlot.payloadCapacity t.core.layout) ⟨t.core.allocator.pool, R⟩) :=
  (update_follows h he).agrees fun _ => .done

theorem delete_follows (h : t.Rows d R) (x : Nat) :
    Follows d t (TreeFile.delete x (d, t)) (.ok (RowModel.delete ⟨t.core.allocator.pool, R⟩ x).1,
      (RowModel.delete ⟨t.core.allocator.pool, R⟩ x).2) := by
  obtain ⟨t', hrun, hrows, hcore, hk⟩ := h.delete x
  rw [hrun]
  exact ⟨t', rfl, hrows, by rw [hcore]; exact (h.core.allocator.release x).1, TreeFile.Same.of_core hcore hk⟩

theorem delete_agrees (h : t.Rows d R) (x : Nat) :
    Agrees t ((RowEvent.delete x).onFile (d, t))
      ((RowEvent.delete x).onModel (NodeSlot.payloadCapacity t.core.layout) ⟨t.core.allocator.pool, R⟩) :=
  (delete_follows h x).agrees RowAnswer.flag

/-- One allowed event on a file that holds `R` answers as on the model holding `R` with the
file's pool, and leaves a file that holds the model's rows after it, with its pool. -/
theorem step_rows (h : t.Rows d R) {e : RowEvent} (he : e.Allowed t.kind t.core.allocator.pool) :
    Agrees t (e.onFile (d, t)) (e.onModel (NodeSlot.payloadCapacity t.core.layout) ⟨t.core.allocator.pool, R⟩) := by
  cases e with
  | add v id? => exact add_agrees h he
  | update x v => exact update_agrees h he
  | delete x => exact delete_agrees h x
  | get x =>
    obtain ⟨t', hrun, hrows, hk⟩ := h.get x
    simp only [onFile, onModel, hrun, result]
    exact ⟨rfl, hrows, by rw [hk.core], TreeFile.Same.of_core_eq hk.core hk.kind⟩
  | contains x =>
    simp only [onFile, onModel, h.contains_eq x]
    exact Agrees.unchanged h
  | all =>
    obtain ⟨t', hrun, hrows, hk⟩ := h.all
    simp only [onFile, onModel, hrun, result]
    exact ⟨rfl, hrows, by rw [hk.core], TreeFile.Same.of_core_eq hk.core hk.kind⟩
  | flush =>
    obtain ⟨d', t', hrun, hrows, hw, -⟩ := h.flush
    simp only [onFile, onModel, hrun, result]
    exact ⟨rfl, hrows, hw.pool, hw.kind, hw.layout, hw.store, hw.label⟩
  | reopen =>
    obtain ⟨d', t', hrun, hrows, hpool, hsame⟩ := h.reopen
    simp only [onFile, onModel, hrun, result]
    exact ⟨rfl, hrows, hpool, hsame⟩

/-! ## Runs -/

/-- An allowed run on a file that holds `R` answers as on the model holding `R` with the file's
pool, and ends in the same file holding the rows the model ends with, with its pool: by induction
on the run from `step_rows`. -/
theorem runFile_rows : ∀ (es : List RowEvent) {d : Disk} {t : TreeFile} {R : List (Nat × Value)}, t.Rows d R →
    AllowedRun t.kind (NodeSlot.payloadCapacity t.core.layout) ⟨t.core.allocator.pool, R⟩ es →
    (runFile es (d, t)).1 = (runModel (NodeSlot.payloadCapacity t.core.layout) es ⟨t.core.allocator.pool, R⟩).1 ∧
      (runFile es (d, t)).2.2.Rows (runFile es (d, t)).2.1
        (runModel (NodeSlot.payloadCapacity t.core.layout) es ⟨t.core.allocator.pool, R⟩).2.rows ∧
      (runFile es (d, t)).2.2.core.allocator.pool =
        (runModel (NodeSlot.payloadCapacity t.core.layout) es ⟨t.core.allocator.pool, R⟩).2.pool ∧
      TreeFile.Same t (runFile es (d, t)).2.2
  | [], _, t, _, h, _ => ⟨rfl, h, rfl, TreeFile.Same.refl t⟩
  | e :: es, d, t, R, h, ⟨he, hes⟩ => by
    obtain ⟨hans, hrows, hpool, hsame⟩ := step_rows (R := R) h he
    -- the rest of the run starts from the file and the model the step reached
    have hmodel : (⟨(e.onFile (d, t)).2.2.core.allocator.pool,
        (e.onModel (NodeSlot.payloadCapacity t.core.layout) ⟨t.core.allocator.pool, R⟩).2.rows⟩ : RowModel) =
        (e.onModel (NodeSlot.payloadCapacity t.core.layout) ⟨t.core.allocator.pool, R⟩).2 := by
      rw [hpool]
    have hcap : NodeSlot.payloadCapacity (e.onFile (d, t)).2.2.core.layout = NodeSlot.payloadCapacity t.core.layout := by
      rw [hsame.layout]
    obtain ⟨ih₁, ih₂, ih₃, ih₄⟩ := runFile_rows es hrows (by rw [hsame.kind, hcap, hmodel]; exact hes)
    rw [hcap, hmodel] at ih₁ ih₂ ih₃
    exact ⟨by simp only [runFile, runModel, hans, ih₁], ih₂, ih₃, hsame.trans ih₄⟩

/-! ## Files opened on an empty store -/

section New

variable {d : Disk} {store : StoreRef} {label : String} {kind : ValueKind} {capacity : Nat} {t : TreeFile}

/-- A run from a file opened on an empty store, read as the model's run from no rows. -/
theorem runFile_new (hcap : capacity < Nat.pow 256 4) (hs : store.store < d.stores.size)
    (hempty : d.size store.store = 0) (hopen : TreeFile.open d store label kind capacity = .ok t)
    (es : List RowEvent)
    (hes : AllowedRun kind (NodeSlot.payloadCapacity t.core.layout) ⟨t.core.allocator.pool, []⟩ es) :
    (runFile es (d, t)).1 = (runModel (NodeSlot.payloadCapacity t.core.layout) es ⟨t.core.allocator.pool, []⟩).1 ∧
      (runFile es (d, t)).2.2.Rows (runFile es (d, t)).2.1
        (runModel (NodeSlot.payloadCapacity t.core.layout) es ⟨t.core.allocator.pool, []⟩).2.rows ∧
      (runFile es (d, t)).2.2.core.allocator.pool =
        (runModel (NodeSlot.payloadCapacity t.core.layout) es ⟨t.core.allocator.pool, []⟩).2.pool := by
  obtain ⟨hrows, hkind⟩ := TreeFile.rows_open_new hcap hs hempty hopen
  obtain ⟨hans, hrows', hpool, -⟩ := runFile_rows es hrows (by rw [hkind]; exact hes)
  exact ⟨hans, hrows', hpool⟩

/-- A file of values of one kind opened on an empty store answers every allowed run of events,
reopening included, as the list model does from no rows, the file's pool and its payload size:
the same ids handed out, the same values read, the same rows listed; and it ends with the pool the
model ends with. -/
theorem runFile_answers_as_rows (hcap : capacity < Nat.pow 256 4) (hs : store.store < d.stores.size)
    (hempty : d.size store.store = 0) (hopen : TreeFile.open d store label kind capacity = .ok t)
    (es : List RowEvent)
    (hes : AllowedRun kind (NodeSlot.payloadCapacity t.core.layout) ⟨t.core.allocator.pool, []⟩ es) :
    (runFile es (d, t)).1 = (runModel (NodeSlot.payloadCapacity t.core.layout) es ⟨t.core.allocator.pool, []⟩).1 ∧
      (runFile es (d, t)).2.2.core.allocator.pool =
        (runModel (NodeSlot.payloadCapacity t.core.layout) es ⟨t.core.allocator.pool, []⟩).2.pool :=
  ⟨(runFile_new hcap hs hempty hopen es hes).1, (runFile_new hcap hs hempty hopen es hes).2.2⟩

/-- A new file of 64-bit integers with slots of 64 bytes: adding 5, 3 and 5, moving the first row
to 1, deleting the second row, reopening, reading row 3 and listing every row. -/
theorem runFile_answers_as_rows_new_file :
    TreeFile.open { stores := #[ByteArray.empty] } ⟨0, none⟩ "t" (.int .i64) 64 =
        .ok ⟨⟨"t", ⟨0, none⟩, ⟨20, 64⟩, Cell.create 8 4 64, Allocator.create ⟨20, 64⟩, true, false⟩, .int .i64,
          Cell.create 12 8 0, ∅⟩ ∧
      AllowedRun (.int .i64) 34 ⟨(Allocator.create ⟨20, 64⟩).pool, []⟩
        [.add (.int .i64 5) none, .add (.int .i64 3) none, .add (.int .i64 5) none, .update 1 (.int .i64 1),
          .delete 2, .reopen, .get 3, .all] ∧
      (runFile [.add (.int .i64 5) none, .add (.int .i64 3) none, .add (.int .i64 5) none, .update 1 (.int .i64 1),
          .delete 2, .reopen, .get 3, .all]
          ({ stores := #[ByteArray.empty] }, ⟨⟨"t", ⟨0, none⟩, ⟨20, 64⟩, Cell.create 8 4 64, Allocator.create ⟨20, 64⟩, true, false⟩,
            .int .i64, Cell.create 12 8 0, ∅⟩)).1 =
        (runModel 34 [.add (.int .i64 5) none, .add (.int .i64 3) none, .add (.int .i64 5) none,
          .update 1 (.int .i64 1), .delete 2, .reopen, .get 3, .all] ⟨(Allocator.create ⟨20, 64⟩).pool, []⟩).1 :=
  ⟨rfl, by decide, (@runFile_answers_as_rows { stores := #[ByteArray.empty] } ⟨0, none⟩ "t" (.int .i64) 64
    ⟨⟨"t", ⟨0, none⟩, ⟨20, 64⟩, Cell.create 8 4 64, Allocator.create ⟨20, 64⟩, true, false⟩, .int .i64,
      Cell.create 12 8 0, ∅⟩ (by decide) (by decide) (by decide) rfl
    [.add (.int .i64 5) none, .add (.int .i64 3) none, .add (.int .i64 5) none, .update 1 (.int .i64 1),
      .delete 2, .reopen, .get 3, .all] (by decide)).1⟩

/-- Every file reached from a file opened on an empty store by an allowed run of events,
reopening included, holds a balanced tree over exactly its allocated ids: the root has no parent,
every node names its parent and children and caches the exact heights of its subtrees, ids are
distinct and nonzero, and the ids in order carry values of the file's kind in ascending order,
which are the model's rows. -/
theorem runFile_shaped (hcap : capacity < Nat.pow 256 4) (hs : store.store < d.stores.size)
    (hempty : d.size store.store = 0) (hopen : TreeFile.open d store label kind capacity = .ok t)
    (es : List RowEvent)
    (hes : AllowedRun kind (NodeSlot.payloadCapacity t.core.layout) ⟨t.core.allocator.pool, []⟩ es) :
    ∃ T val, (runFile es (d, t)).2.2.Shape (runFile es (d, t)).2.1 T val ∧
      rowsOf val T.toList = (runModel (NodeSlot.payloadCapacity t.core.layout) es ⟨t.core.allocator.pool, []⟩).2.rows := by
  obtain ⟨T, val, hshape, hR⟩ := (runFile_new hcap hs hempty hopen es hes).2.1.shape
  exact ⟨T, val, hshape, hR.symm⟩

/-- The new file of 64-bit integers after adding 5, 3 and 5, moving the first row to 1, deleting
the second row, reopening and adding 2 under id 7. -/
theorem runFile_shaped_new_file :
    let d : Disk := { stores := #[ByteArray.empty] }
    let t : TreeFile := ⟨⟨"t", ⟨0, none⟩, ⟨20, 64⟩, Cell.create 8 4 64, Allocator.create ⟨20, 64⟩, true, false⟩,
      .int .i64, Cell.create 12 8 0, ∅⟩
    let es : List RowEvent := [.add (.int .i64 5) none, .add (.int .i64 3) none, .add (.int .i64 5) none,
      .update 1 (.int .i64 1), .delete 2, .reopen, .add (.int .i64 2) (some 7)]
    let m₀ : RowModel := ⟨(Allocator.create ⟨20, 64⟩).pool, []⟩
    TreeFile.open d ⟨0, none⟩ "t" (.int .i64) 64 = .ok t ∧ AllowedRun (.int .i64) 34 m₀ es ∧
      ∃ T val, (runFile es (d, t)).2.2.Shape (runFile es (d, t)).2.1 T val ∧
        rowsOf val T.toList = (runModel 34 es m₀).2.rows :=
  ⟨rfl, by decide, @runFile_shaped _ ⟨0, none⟩ "t" (.int .i64) 64 _ (by decide) (by decide) (by decide) rfl _
    (by decide)⟩

/-- Every file reached from a file opened on an empty store by an allowed run of events lists the
model's rows, and a range scan against an operand of the file's kind answers exactly those of them
whose value the comparison accepts, in the same order. The rows `>`, `==` and `<` accept have
distinct ids and together are every row. -/
theorem runFile_range_filters_all (hcap : capacity < Nat.pow 256 4) (hs : store.store < d.stores.size)
    (hempty : d.size store.store = 0) (hopen : TreeFile.open d store label kind capacity = .ok t)
    (es : List RowEvent)
    (hes : AllowedRun kind (NodeSlot.payloadCapacity t.core.layout) ⟨t.core.allocator.pool, []⟩ es)
    (cmp : Comparison) {o : Value} (ho : o.kind = kind) :
    (∃ st, TreeFile.all (runFile es (d, t)).2 =
        .ok (runModel (NodeSlot.payloadCapacity t.core.layout) es ⟨t.core.allocator.pool, []⟩).2.rows st) ∧
      (∃ st, TreeFile.range cmp o (runFile es (d, t)).2 =
        .ok ((runModel (NodeSlot.payloadCapacity t.core.layout) es ⟨t.core.allocator.pool, []⟩).2.rows.filter
          fun row => cmp.accepts (row.2.compare o)) st) ∧
      ((runModel (NodeSlot.payloadCapacity t.core.layout) es ⟨t.core.allocator.pool, []⟩).2.rows.filter
          (fun row => Comparison.gt.accepts (row.2.compare o)) ++
        (runModel (NodeSlot.payloadCapacity t.core.layout) es ⟨t.core.allocator.pool, []⟩).2.rows.filter
          (fun row => Comparison.eq.accepts (row.2.compare o)) ++
        (runModel (NodeSlot.payloadCapacity t.core.layout) es ⟨t.core.allocator.pool, []⟩).2.rows.filter
          (fun row => Comparison.lt.accepts (row.2.compare o))).Perm
        (runModel (NodeSlot.payloadCapacity t.core.layout) es ⟨t.core.allocator.pool, []⟩).2.rows ∧
      ((runModel (NodeSlot.payloadCapacity t.core.layout) es ⟨t.core.allocator.pool, []⟩).2.rows.map Prod.fst).Nodup := by
  obtain ⟨hnew, hk⟩ := TreeFile.rows_open_new hcap hs hempty hopen
  obtain ⟨-, hrows, -, hsame⟩ := runFile_rows es hnew (by rw [hk]; exact hes)
  have hlists := hrows.lists
  -- the file keeps its kind along the run, so the operand is of the final file's kind
  have hkind : (runFile es (d, t)).2.2.kind = kind := hsame.kind.trans hk
  obtain ⟨t₁, hall, -⟩ := hlists.all
  obtain ⟨t₂, hrange, -⟩ := hlists.range cmp (ho.trans hkind.symm)
  exact ⟨⟨_, hall⟩, ⟨_, hrange⟩, Comparison.filter_gt_eq_lt_perm o _, hlists.nodup⟩

/-- The new file of 64-bit integers after adding 5, 3 and 5, deleting the second row and
reopening, scanned for the values of at least 4. -/
theorem runFile_range_filters_all_new_file :
    TreeFile.open { stores := #[ByteArray.empty] } ⟨0, none⟩ "t" (.int .i64) 64 =
        .ok ⟨⟨"t", ⟨0, none⟩, ⟨20, 64⟩, Cell.create 8 4 64, Allocator.create ⟨20, 64⟩, true, false⟩, .int .i64,
          Cell.create 12 8 0, ∅⟩ ∧
      AllowedRun (.int .i64) 34 ⟨(Allocator.create ⟨20, 64⟩).pool, []⟩
        [.add (.int .i64 5) none, .add (.int .i64 3) none, .add (.int .i64 5) none, .delete 2, .reopen] ∧
      (Value.int .i64 4).kind = .int .i64 ∧
      (∃ st, TreeFile.all (runFile [.add (.int .i64 5) none, .add (.int .i64 3) none, .add (.int .i64 5) none,
          .delete 2, .reopen] ({ stores := #[ByteArray.empty] }, ⟨⟨"t", ⟨0, none⟩, ⟨20, 64⟩, Cell.create 8 4 64,
            Allocator.create ⟨20, 64⟩, true, false⟩, .int .i64, Cell.create 12 8 0, ∅⟩)).2 =
        .ok (runModel 34 [.add (.int .i64 5) none, .add (.int .i64 3) none, .add (.int .i64 5) none, .delete 2,
          .reopen] ⟨(Allocator.create ⟨20, 64⟩).pool, []⟩).2.rows st) ∧
      (∃ st, TreeFile.range .ge (.int .i64 4) (runFile [.add (.int .i64 5) none, .add (.int .i64 3) none,
          .add (.int .i64 5) none, .delete 2, .reopen] ({ stores := #[ByteArray.empty] }, ⟨⟨"t", ⟨0, none⟩,
            ⟨20, 64⟩, Cell.create 8 4 64, Allocator.create ⟨20, 64⟩, true, false⟩, .int .i64, Cell.create 12 8 0,
            ∅⟩)).2 =
        .ok ((runModel 34 [.add (.int .i64 5) none, .add (.int .i64 3) none, .add (.int .i64 5) none, .delete 2,
          .reopen] ⟨(Allocator.create ⟨20, 64⟩).pool, []⟩).2.rows.filter
            fun row => Comparison.ge.accepts (row.2.compare (.int .i64 4))) st) ∧
      ((runModel 34 [.add (.int .i64 5) none, .add (.int .i64 3) none, .add (.int .i64 5) none, .delete 2,
          .reopen] ⟨(Allocator.create ⟨20, 64⟩).pool, []⟩).2.rows.filter
          (fun row => Comparison.gt.accepts (row.2.compare (.int .i64 4))) ++
        (runModel 34 [.add (.int .i64 5) none, .add (.int .i64 3) none, .add (.int .i64 5) none, .delete 2,
          .reopen] ⟨(Allocator.create ⟨20, 64⟩).pool, []⟩).2.rows.filter
          (fun row => Comparison.eq.accepts (row.2.compare (.int .i64 4))) ++
        (runModel 34 [.add (.int .i64 5) none, .add (.int .i64 3) none, .add (.int .i64 5) none, .delete 2,
          .reopen] ⟨(Allocator.create ⟨20, 64⟩).pool, []⟩).2.rows.filter
          (fun row => Comparison.lt.accepts (row.2.compare (.int .i64 4)))).Perm
        (runModel 34 [.add (.int .i64 5) none, .add (.int .i64 3) none, .add (.int .i64 5) none, .delete 2,
          .reopen] ⟨(Allocator.create ⟨20, 64⟩).pool, []⟩).2.rows ∧
      ((runModel 34 [.add (.int .i64 5) none, .add (.int .i64 3) none, .add (.int .i64 5) none, .delete 2,
          .reopen] ⟨(Allocator.create ⟨20, 64⟩).pool, []⟩).2.rows.map Prod.fst).Nodup :=
  ⟨rfl, by decide, rfl, @runFile_range_filters_all { stores := #[ByteArray.empty] } ⟨0, none⟩ "t" (.int .i64) 64
    ⟨⟨"t", ⟨0, none⟩, ⟨20, 64⟩, Cell.create 8 4 64, Allocator.create ⟨20, 64⟩, true, false⟩, .int .i64,
      Cell.create 12 8 0, ∅⟩ (by decide) (by decide) (by decide) rfl
    [.add (.int .i64 5) none, .add (.int .i64 3) none, .add (.int .i64 5) none, .delete 2, .reopen] (by decide)
    .ge (.int .i64 4) rfl⟩

end New

end RowEvent

end ColumnDb.Tree
