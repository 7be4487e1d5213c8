import Mathlib
import ColumnDb.Slot.BlockFile
import ColumnDb.Proofs.Allocator

/-!
# Files that run as their models

A file kind is followed by a model: a state a program can see, with the file's operations run on
it. `Simulates file model allowed R` says that a file state related by `R` to a model state answers
every event the model allows as the model does, and reaches a state related to the model's next
one. Then every allowed run does the same (`Simulates.run`), and an event that the model does not
see, answered the same way from every model state, can stand anywhere in a run without changing
a later answer (`Simulates.transparent`): the two runs end in states related to one model state.

`Call Q E` adds to a file's own events `E` what a program can do with every file: read it without
changing it (a question of `Q`, such as whether an id is allocated), flush, and dispose of the file
to open its store again. `Call.simulates` builds the simulation of calls from the simulation of the
file's own events, given that a read reads the model, and that a flush and a reopening succeed and
keep the relation.
-/

set_option autoImplicit false

namespace ColumnDb

open ColumnDb.Slot ColumnDb.Disk

section Runs

variable {E A S M : Type}

/-- Runs a step function over events one after the other, gathering the answers. -/
def runSteps (step : E → S → A × S) : List E → S → List A × S
  | [], s => ([], s)
  | e :: es, s => ((step e s).1 :: (runSteps step es (step e s).2).1, (runSteps step es (step e s).2).2)

@[simp] theorem runSteps_nil (step : E → S → A × S) (s : S) : runSteps step [] s = ([], s) := rfl

@[simp] theorem runSteps_cons (step : E → S → A × S) (e : E) (es : List E) (s : S) :
    runSteps step (e :: es) s =
      ((step e s).1 :: (runSteps step es (step e s).2).1, (runSteps step es (step e s).2).2) := rfl

/-- A run of two parts answers the first part, then the second from where the first ends. -/
theorem runSteps_append (step : E → S → A × S) (es₁ es₂ : List E) (s : S) :
    runSteps step (es₁ ++ es₂) s =
      ((runSteps step es₁ s).1 ++ (runSteps step es₂ (runSteps step es₁ s).2).1,
        (runSteps step es₂ (runSteps step es₁ s).2).2) := by
  induction es₁ generalizing s with
  | nil => rfl
  | cons e es ih => simp [ih]

/-- Every event of a run is one the model allows in the state it meets. -/
def AllowedAlong (model : E → M → A × M) (allowed : M → E → Prop) : M → List E → Prop
  | _, [] => True
  | m, e :: es => allowed m e ∧ AllowedAlong model allowed (model e m).2 es

/-- Whether a run is allowed, by following it on the model. -/
def decAllowedAlong (model : E → M → A × M) (allowed : M → E → Prop) [∀ m e, Decidable (allowed m e)] :
    (m : M) → (es : List E) → Decidable (AllowedAlong model allowed m es)
  | _, [] => inferInstanceAs (Decidable True)
  | m, e :: es =>
    have := decAllowedAlong model allowed (model e m).2 es
    inferInstanceAs (Decidable (_ ∧ _))

instance (model : E → M → A × M) (allowed : M → E → Prop) [∀ m e, Decidable (allowed m e)] (m : M)
    (es : List E) : Decidable (AllowedAlong model allowed m es) :=
  decAllowedAlong model allowed m es

/-- A run of two parts is allowed when the first is, and the second from where the first ends. -/
theorem allowedAlong_append {model : E → M → A × M} {allowed : M → E → Prop} (es₁ es₂ : List E) (m : M) :
    AllowedAlong model allowed m (es₁ ++ es₂) ↔
      AllowedAlong model allowed m es₁ ∧ AllowedAlong model allowed (runSteps model es₁ m).2 es₂ := by
  induction es₁ generalizing m with
  | nil => simp [AllowedAlong]
  | cons e es ih => simp only [List.cons_append, AllowedAlong, ih, runSteps_cons, and_assoc]

/-- File states related by `R` to model states answer every allowed event as the model does, and
stay related. -/
def Simulates (file : E → S → A × S) (model : E → M → A × M) (allowed : M → E → Prop)
    (R : S → M → Prop) : Prop :=
  ∀ s m e, R s m → allowed m e → (file e s).1 = (model e m).1 ∧ R (file e s).2 (model e m).2

variable {file : E → S → A × S} {model : E → M → A × M} {allowed : M → E → Prop} {R : S → M → Prop}

/-- An allowed run answers as the model's run and ends in related states: by induction on the
run, one step at a time. -/
theorem Simulates.run (h : Simulates file model allowed R) :
    ∀ (es : List E) {s : S} {m : M}, R s m → AllowedAlong model allowed m es →
      (runSteps file es s).1 = (runSteps model es m).1 ∧ R (runSteps file es s).2 (runSteps model es m).2
  | [], _, _, hR, _ => ⟨rfl, hR⟩
  | e :: es, s, m, hR, ⟨he, hes⟩ => by
    obtain ⟨hans, hR'⟩ := h s m e hR he
    obtain ⟨ih₁, ih₂⟩ := h.run es hR' hes
    exact ⟨by rw [runSteps_cons, runSteps_cons, hans, ih₁], ih₂⟩

/-- An event that the model answers with `a` and does not see, put between two parts of an
allowed run: it answers `a`, the second part answers as it does right after the first, and the
two runs end in states related to one model state. -/
theorem Simulates.transparent (h : Simulates file model allowed R) {r : E} {a : A}
    (hr : ∀ m, model r m = (a, m)) (hallowed : ∀ m, allowed m r) (es₁ es₂ : List E) {s : S} {m : M}
    (hR : R s m) (hrun : AllowedAlong model allowed m (es₁ ++ es₂)) :
    (file r (runSteps file es₁ s).2).1 = a ∧
      (runSteps file es₂ (file r (runSteps file es₁ s).2).2).1 = (runSteps file es₂ (runSteps file es₁ s).2).1 ∧
      ∃ m', R (runSteps file es₂ (file r (runSteps file es₁ s).2).2).2 m' ∧
        R (runSteps file es₂ (runSteps file es₁ s).2).2 m' := by
  obtain ⟨hrun₁, hrun₂⟩ := (allowedAlong_append es₁ es₂ m).mp hrun
  obtain ⟨-, hR₁⟩ := h.run es₁ hR hrun₁
  -- the event leaves the model where the first part ended
  obtain ⟨hans, hR₂⟩ := h _ _ r hR₁ (hallowed _)
  rw [hr] at hans hR₂
  obtain ⟨hsame₁, hend₁⟩ := h.run es₂ hR₂ hrun₂
  obtain ⟨hsame₂, hend₂⟩ := h.run es₂ hR₁ hrun₂
  exact ⟨hans, hsame₁.trans hsame₂.symm, _, hend₁, hend₂⟩

theorem runSteps_length (step : E → S → A × S) (es : List E) (s : S) :
    (runSteps step es s).1.length = es.length := by
  induction es generalizing s with
  | nil => rfl
  | cons e es ih => simp [ih]

/-- The same, read off the answers: the run with the event answers as the run without it, with
`a` standing between the two parts. -/
theorem Simulates.insert_answers (h : Simulates file model allowed R) {r : E} {a : A}
    (hr : ∀ m, model r m = (a, m)) (hallowed : ∀ m, allowed m r) (es₁ es₂ : List E) {s : S} {m : M}
    (hR : R s m) (hrun : AllowedAlong model allowed m (es₁ ++ es₂)) :
    (runSteps file (es₁ ++ r :: es₂) s).1 =
      (runSteps file es₁ s).1 ++ a :: (runSteps file (es₁ ++ es₂) s).1.drop es₁.length := by
  obtain ⟨hans, hsame, -⟩ := h.transparent hr hallowed es₁ es₂ hR hrun
  have hdrop : (runSteps file (es₁ ++ es₂) s).1.drop es₁.length = (runSteps file es₂ (runSteps file es₁ s).2).1 := by
    rw [runSteps_append, ← runSteps_length file es₁ s, List.drop_left]
  rw [hdrop, runSteps_append, runSteps_cons, hans, hsame]

end Runs

/-! ## Reading a file's ids -/

/-- What a program reads off a file's ids without changing the file: whether an id is allocated,
the allocated ids in order, the latest id handed out, and how many ids are free. -/
inductive Probe where
  | contains (id : Nat)
  | ids
  | latest
  | freeCount
deriving DecidableEq, Repr

/-- What reading a file's ids answers. -/
inductive Reading where
  | flag (b : Bool)
  | ids (xs : List Nat)
  | count (n : Nat)
deriving DecidableEq, Repr

namespace Probe

/-- Reads the ids of a file part. -/
def onCore (c : BlockFile) : Probe → Reading
  | .contains x => .flag (c.isAllocated x)
  | .ids => .ids c.allocatedIds
  | .latest => .count c.latest
  | .freeCount => .count c.freeCount

/-- Reads a pool of ids. -/
def onPool (p : IdPool) : Probe → Reading
  | .contains x => .flag (decide (p.Allocated x))
  | .ids => .ids ((List.range' 1 p.latest).filter fun x => decide (p.Allocated x))
  | .latest => .count p.latest
  | .freeCount => .count p.free.length

/-- A file part reads as the pool its allocator stands for. -/
theorem onCore_eq_onPool (c : BlockFile) (q : Probe) : q.onCore c = q.onPool c.allocator.pool := by
  have hmem : ∀ x, c.isAllocated x = decide (c.allocator.pool.Allocated x) := fun x =>
    Bool.eq_iff_iff.mpr ((Allocator.isAllocated_iff _ _).trans decide_eq_true_iff.symm)
  cases q with
  | contains x => rw [onCore, onPool, hmem]
  | ids => exact congrArg Reading.ids (List.filter_congr fun x _ => hmem x)
  | latest => rfl
  | freeCount => exact congrArg Reading.count Array.length_toList.symm

end Probe

/-! ## Calls every file answers -/

namespace Slot.FileOp

/-- The outcome of an operation: its answer or its error, and the state after. -/
def outcome {σ α : Type} : EStateM.Result FileError (Disk × σ) α → Except FileError α × (Disk × σ)
  | .ok a st => (.ok a, st)
  | .error e st => (.error e, st)

@[simp] theorem outcome_ok {σ α : Type} (a : α) (st : Disk × σ) :
    outcome (.ok a st : EStateM.Result FileError (Disk × σ) α) = (.ok a, st) := rfl

@[simp] theorem outcome_error {σ α : Type} (e : FileError) (st : Disk × σ) :
    outcome (.error e st : EStateM.Result FileError (Disk × σ) α) = (.error e, st) := rfl

theorem eq_ok_of_outcome {σ α : Type} {r : EStateM.Result FileError (Disk × σ) α} {a : α} {st : Disk × σ}
    (h : outcome r = (.ok a, st)) : r = .ok a st := by
  cases r with
  | ok b st' =>
    obtain ⟨hb, rfl⟩ := Prod.mk.inj h
    cases hb
    rfl
  | error e st' => cases (Prod.mk.inj h).1

theorem eq_error_of_outcome {σ α : Type} {r : EStateM.Result FileError (Disk × σ) α} {e : FileError}
    {st : Disk × σ} (h : outcome r = (.error e, st)) : r = .error e st := by
  cases r with
  | ok b st' => cases (Prod.mk.inj h).1
  | error e' st' =>
    obtain ⟨he, rfl⟩ := Prod.mk.inj h
    cases he
    rfl

/-- An operation on a part of the state that succeeds is the part's operation succeeding. -/
theorem zoom_eq_ok {σ τ α : Type} {get : σ → τ} {put : σ → τ → σ} {m : FileOp τ α} {d d' : Disk} {s s' : σ}
    {a : α} (hput : ∀ s t, get (put s t) = t) (h : FileOp.zoom get put m (d, s) = .ok a (d', s')) :
    m (d, get s) = .ok a (d', get s') := by
  cases hm : m (d, get s) with
  | ok b st =>
    obtain ⟨d₁, t₁⟩ := st
    have hz : FileOp.zoom get put m (d, s) = .ok b (d₁, put s t₁) := by simp only [FileOp.zoom, hm]
    rw [hz] at h
    obtain ⟨rfl, hst⟩ := EStateM.Result.ok.inj h
    obtain ⟨rfl, rfl⟩ := Prod.mk.inj hst
    rw [hput]
  | error e st =>
    have hz : FileOp.zoom get put m (d, s) = .error e (st.1, put s st.2) := by simp only [FileOp.zoom, hm]
    rw [hz] at h
    cases h

/-- Discarding an answer keeps the outcome's error and state. -/
theorem outcome_discard {σ α : Type} (x : FileOp σ α) (st : Disk × σ) :
    outcome ((discard x : FileOp σ Unit) st) = ((outcome (x st)).1.map fun _ => (), (outcome (x st)).2) := by
  cases hx : x st with
  | ok a st' => simp only [discard, Functor.mapConst, Function.comp_apply, EStateM.map, hx]; rfl
  | error e st' => simp only [discard, Functor.mapConst, Function.comp_apply, EStateM.map, hx]; rfl

end Slot.FileOp

/-- What a program does with a file: one of the file's own operations, a read that changes nothing,
flushing, or disposing of the file and opening its store again. -/
inductive Call (Q E : Type) where
  | op (e : E)
  | read (q : Q)
  | flush
  | reopen
deriving DecidableEq, Repr

/-- What a file answers a call. -/
inductive Reply (B A : Type) where
  | op (a : Except FileError A)
  | read (b : B)
  | done (r : Except FileError Unit)
deriving DecidableEq, Repr

namespace Call

variable {Q E B A σ μ : Type}

/-- Runs a call on a file and its store, given the file's own step, its reads, its flush and its
reopening. -/
def onFile (step : E → Disk × σ → Except FileError A × (Disk × σ)) (read : σ → Q → B)
    (flush reopen : FileOp σ Unit) : Call Q E → Disk × σ → Reply B A × (Disk × σ)
  | .op e, st => (.op (step e st).1, (step e st).2)
  | .read q, st => (.read (read st.2 q), st)
  | .flush, st => (.done (FileOp.outcome (flush st)).1, (FileOp.outcome (flush st)).2)
  | .reopen, st => (.done (FileOp.outcome (reopen st)).1, (FileOp.outcome (reopen st)).2)

/-- Runs a call on a model: a flush and a reopening answer done and change nothing it sees. -/
def onModel (step : E → μ → Except FileError A × μ) (read : μ → Q → B) : Call Q E → μ → Reply B A × μ
  | .op e, m => (.op (step e m).1, (step e m).2)
  | .read q, m => (.read (read m q), m)
  | .flush, m => (.done (.ok ()), m)
  | .reopen, m => (.done (.ok ()), m)

/-- The calls a model allows: the file's own events it allows, and every other call. -/
def Allowed (allowed : μ → E → Prop) : μ → Call Q E → Prop
  | m, .op e => allowed m e
  | _, .read _ | _, .flush | _, .reopen => True

instance (allowed : μ → E → Prop) [∀ m e, Decidable (allowed m e)] :
    ∀ m (c : Call Q E), Decidable (Allowed allowed m c)
  | m, .op e => inferInstanceAs (Decidable (allowed m e))
  | _, .read _ | _, .flush | _, .reopen => inferInstanceAs (Decidable True)

variable {step : E → Disk × σ → Except FileError A × (Disk × σ)} {read : σ → Q → B}
  {flush reopen : FileOp σ Unit} {stepM : E → μ → Except FileError A × μ} {readM : μ → Q → B}
  {allowed : μ → E → Prop} {R : Disk × σ → μ → Prop}

/-- A file whose own events run as the model's, whose reads read the model, and whose flush and
reopening succeed and keep the relation, runs every call as the model does. -/
theorem simulates (hop : Simulates step stepM allowed R)
    (hread : ∀ st m q, R st m → read st.2 q = readM m q)
    (hflush : ∀ st m, R st m → ∃ st', flush st = .ok () st' ∧ R st' m)
    (hreopen : ∀ st m, R st m → ∃ st', reopen st = .ok () st' ∧ R st' m) :
    Simulates (onFile step read flush reopen) (onModel stepM readM) (Allowed allowed) R := by
  intro st m c hR hc
  cases c with
  | op e =>
    obtain ⟨hans, hR'⟩ := hop st m e hR hc
    exact ⟨by simp only [onFile, onModel, hans], hR'⟩
  | read q => exact ⟨by simp only [onFile, onModel, hread st m q hR], hR⟩
  | flush =>
    obtain ⟨st', hrun, hR'⟩ := hflush st m hR
    have hout : FileOp.outcome (flush st) = (.ok (), st') := by rw [hrun]; rfl
    exact ⟨by simp only [onFile, onModel, hout], by simpa only [onFile, onModel, hout] using hR'⟩
  | reopen =>
    obtain ⟨st', hrun, hR'⟩ := hreopen st m hR
    have hout : FileOp.outcome (reopen st) = (.ok (), st') := by rw [hrun]; rfl
    exact ⟨by simp only [onFile, onModel, hout], by simpa only [onFile, onModel, hout] using hR'⟩

/-- Reopening put between two parts of an allowed run of calls: it succeeds, the second part
answers as it does right after the first, and both runs end in states related to one model state. -/
theorem reopen_transparent (hsim : Simulates (onFile step read flush reopen) (onModel stepM readM)
    (Allowed allowed) R) (es₁ es₂ : List (Call Q E)) {st : Disk × σ} {m : μ} (hR : R st m)
    (hrun : AllowedAlong (onModel stepM readM) (Allowed allowed) m (es₁ ++ es₂)) :
    (onFile step read flush reopen .reopen (runSteps (onFile step read flush reopen) es₁ st).2).1 =
        .done (.ok ()) ∧
      (runSteps (onFile step read flush reopen) es₂
          (onFile step read flush reopen .reopen (runSteps (onFile step read flush reopen) es₁ st).2).2).1 =
        (runSteps (onFile step read flush reopen) es₂ (runSteps (onFile step read flush reopen) es₁ st).2).1 ∧
      ∃ m', R (runSteps (onFile step read flush reopen) es₂
          (onFile step read flush reopen .reopen (runSteps (onFile step read flush reopen) es₁ st).2).2).2 m' ∧
        R (runSteps (onFile step read flush reopen) es₂ (runSteps (onFile step read flush reopen) es₁ st).2).2 m' :=
  hsim.transparent (fun _ => rfl) (fun m => show Allowed allowed m .reopen from trivial) es₁ es₂ hR hrun

end Call

end ColumnDb
