import Mathlib
import ColumnDb.Proofs.DataRows
import ColumnDb.Proofs.TreeModel
import ColumnDb.Proofs.Simulation

/-!
# A data file runs as its model

What a program sees of a data file is its pool of ids and the value of each row: `DataModel`.
Adding takes the id the pool hands out, or the id asked for, unless the value is too large for a
slot; updating a live row replaces its value, unless too large, and adds any other id; deleting
gives the id back to the pool.

`DataEvent.Tracks` ties a data file over its store to the model: the file holds the model's
values (`DataFile.Holds`) with an allocator standing for the model's pool, and has the model's
kind and payload size. Every event a program may pass answers as on the model and keeps the tie
(`DataEvent.simulates`); so do a flush and disposing of the file to open its store again
(`DataFile.Holds.reopen`), which change nothing the model sees.
-/

set_option autoImplicit false

namespace ColumnDb.Data

open ColumnDb.Slot ColumnDb.Disk

/-- What a program sees of a data file: its pool of ids and the value of each row. -/
structure DataModel where
  pool : IdPool
  vals : Nat → Option Value

namespace DataModel

variable (m : DataModel) (cap : Nat)

/-- Adding a value, for payloads of at most `cap` bytes: a value too large is refused, so is an id
the pool refuses; otherwise the value goes in under the id the pool takes. -/
def add (v : Value) (id? : Option Nat) : Except FileError Nat × DataModel :=
  if cap < v.encode.length then (.error (.slot (.tooLarge v.encode.length cap)), m)
  else match m.pool.take id? with
    | some (x, pool) => (.ok x, ⟨pool, Function.update m.vals x (some v)⟩)
    | none => (.error (.idInUse (id?.getD 0)), m)

/-- Giving a row a new value: a live row's value is replaced unless too large; any other id is
added with the value. -/
def update (x : Nat) (v : Value) : Except FileError Unit × DataModel :=
  if m.pool.Allocated x then
    if cap < v.encode.length then (.error (.slot (.tooLarge v.encode.length cap)), m)
    else (.ok (), ⟨m.pool, Function.update m.vals x (some v)⟩)
  else ((m.add cap v (some x)).1.map fun _ => (), (m.add cap v (some x)).2)

/-- Deleting a row gives its id back to the pool and answers whether it held a value. -/
def delete (x : Nat) : Bool × DataModel :=
  ((m.vals x).isSome, ⟨m.pool.release x, Function.update m.vals x none⟩)

variable {m cap}

/-- An add that answers an id holds the value there. -/
theorem vals_add_of_ok {v : Value} {id? : Option Nat} {x : Nat} (h : (m.add cap v id?).1 = .ok x) :
    (m.add cap v id?).2.vals = Function.update m.vals x (some v) := by
  unfold add at h ⊢
  by_cases hlen : cap < v.encode.length
  · rw [if_pos hlen] at h
    cases h
  · rw [if_neg hlen] at h ⊢
    cases ht : m.pool.take id? with
    | none =>
      rw [ht] at h
      cases h
    | some yp =>
      obtain ⟨y, pool⟩ := yp
      rw [ht] at h
      cases h
      rfl

/-- A refused add changes nothing. -/
theorem add_of_error {v : Value} {id? : Option Nat} {e : FileError} (h : (m.add cap v id?).1 = .error e) :
    (m.add cap v id?).2 = m := by
  unfold add at h ⊢
  by_cases hlen : cap < v.encode.length
  · rw [if_pos hlen]
  · rw [if_neg hlen] at h ⊢
    cases ht : m.pool.take id? with
    | none => rfl
    | some yp =>
      rw [ht] at h
      cases h

/-- A live row takes a value that fits its slot. -/
theorem update_live {x : Nat} {v : Value} (ha : m.pool.Allocated x) (hlen : v.encode.length ≤ cap) :
    m.update cap x v = (.ok (), ⟨m.pool, Function.update m.vals x (some v)⟩) := by
  simp only [update, if_pos ha, if_neg (Nat.not_lt.mpr hlen)]

end DataModel

namespace DataFile

/-- A data file over a store stands for a model: it holds the model's values, and its allocator
stands for the model's pool. -/
structure Models (d : Disk) (f : DataFile) (m : DataModel) : Prop where
  holds : f.Holds d m.vals
  pool : f.core.allocator.pool = m.pool

/-- The file `f'` is `f` after an operation on it: of the same kind, with the same layout, on the
same store. -/
structure Same (f f' : DataFile) : Prop where
  kind : f'.kind = f.kind
  layout : f'.core.layout = f.core.layout
  store : f'.core.store = f.core.store

/-- The live rows of a model are the ids its pool holds. -/
theorem Models.allocated_iff {d : Disk} {f : DataFile} {m : DataModel} (h : f.Models d m) (x : Nat) :
    m.pool.Allocated x ↔ (m.vals x).isSome := by
  rw [← h.pool]
  exact h.holds.pool_allocated x

theorem Same.refl (f : DataFile) : Same f f := ⟨rfl, rfl, rfl⟩

theorem Same.sid {f f' : DataFile} (h : Same f f') : f'.core.sid = f.core.sid :=
  congrArg StoreRef.store h.store

/-- An operation that changed only the allocator keeps the file the same. -/
theorem Same.of_core {f f' : DataFile} {a : Allocator} (hcore : f'.core = { f.core with allocator := a })
    (hk : f'.kind = f.kind) : Same f f' :=
  ⟨hk, by rw [hcore], by rw [hcore]⟩

theorem Same.of_core_eq {f f' : DataFile} (hcore : f'.core = f.core) (hk : f'.kind = f.kind) : Same f f' :=
  ⟨hk, by rw [hcore], by rw [hcore]⟩

end DataFile

/-- What a program does to a data file. -/
inductive DataEvent where
  | add (v : Value) (id? : Option Nat)
  | get (id : Nat)
  | update (id : Nat) (v : Value)
  | delete (id : Nat)
deriving DecidableEq, Repr

/-- What a data file answers. -/
inductive DataAnswer where
  | id (x : Nat)
  | value (v : Option Value)
  | done
  | deleted (b : Bool)
deriving DecidableEq, Repr

namespace DataEvent

/-- Runs an event on a data file and its store. -/
def onFile : DataEvent → Disk × DataFile → Except FileError DataAnswer × (Disk × DataFile)
  | .add v id?, st => ((FileOp.outcome (DataFile.add v id? st)).1.map .id, (FileOp.outcome (DataFile.add v id? st)).2)
  | .get x, st => ((FileOp.outcome (DataFile.get x st)).1.map .value, (FileOp.outcome (DataFile.get x st)).2)
  | .update x v, st =>
    ((FileOp.outcome (DataFile.update x v st)).1.map fun _ => .done, (FileOp.outcome (DataFile.update x v st)).2)
  | .delete x, st =>
    ((FileOp.outcome (DataFile.delete x st)).1.map .deleted, (FileOp.outcome (DataFile.delete x st)).2)

/-- Runs an event on the model of a data file with payloads of at most `cap` bytes. -/
def onModel (cap : Nat) : DataEvent → DataModel → Except FileError DataAnswer × DataModel
  | .add v id?, m => ((m.add cap v id?).1.map .id, (m.add cap v id?).2)
  | .get x, m => (.ok (.value (m.vals x)), m)
  | .update x v, m => ((m.update cap x v).1.map fun _ => .done, (m.update cap x v).2)
  | .delete x, m => (.ok (.deleted (m.delete x).1), (m.delete x).2)

/-- What a program may pass to a file of values of kind `k`: values of the kind that lie in it,
ids below `2 ^ 64`, and room for a new id when none is free. -/
def AllowedOn (k : ValueKind) (m : DataModel) : DataEvent → Prop
  | .add v none => v.kind = k ∧ v.Fits ∧ (m.pool.free = [] → m.pool.latest + 1 < Nat.pow 256 8)
  | .add v (some x) => v.kind = k ∧ v.Fits ∧ x < Nat.pow 256 8
  | .update x v => v.kind = k ∧ v.Fits ∧ x < Nat.pow 256 8
  | .get _ | .delete _ => True

instance (k : ValueKind) (m : DataModel) : (e : DataEvent) → Decidable (AllowedOn k m e)
  | .add _ none => inferInstanceAs (Decidable (_ ∧ _ ∧ (_ → _)))
  | .add _ (some _) => inferInstanceAs (Decidable (_ ∧ _ ∧ _))
  | .update _ _ => inferInstanceAs (Decidable (_ ∧ _ ∧ _))
  | .get _ | .delete _ => inferInstanceAs (Decidable True)

/-- A data file standing for its model: it holds the model's values with the model's pool, of
kind `k` with payloads of `cap` bytes. -/
def Tracks (k : ValueKind) (cap : Nat) (st : Disk × DataFile) (m : DataModel) : Prop :=
  st.2.Models st.1 m ∧ st.2.kind = k ∧ ChunkSlot.payloadCapacity st.2.core.layout = cap

end DataEvent

namespace DataFile

variable {d : Disk} {f : DataFile} {m : DataModel}

/-- Adding a value of the file's kind that lies in it answers as the model does. -/
theorem Models.add (h : f.Models d m) {v : Value} (hkind : v.kind = f.kind) (hfits : v.Fits) {id? : Option Nat}
    (hroom : id? = none → m.pool.free = [] → m.pool.latest + 1 < Nat.pow 256 8)
    (hlt : ∀ x, id? = some x → x < Nat.pow 256 8) :
    ∃ f', FileOp.outcome (DataFile.add v id? (d, f)) =
        ((m.add (ChunkSlot.payloadCapacity f.core.layout) v id?).1, (d, f')) ∧
      f'.Models d (m.add (ChunkSlot.payloadCapacity f.core.layout) v id?).2 ∧ f.Same f' := by
  by_cases hlen : ChunkSlot.payloadCapacity f.core.layout < v.encode.length
  · have hmodel : m.add (ChunkSlot.payloadCapacity f.core.layout) v id? =
        (.error (.slot (.tooLarge v.encode.length (ChunkSlot.payloadCapacity f.core.layout))), m) := by
      simp only [DataModel.add, if_pos hlen]
    rw [hmodel, h.holds.add_tooLarge hlen id?]
    exact ⟨f, rfl, h, Same.refl f⟩
  · have hlen' := Nat.le_of_not_lt hlen
    rw [← h.pool] at hroom
    cases ht : m.pool.take id? with
    | some xp =>
      obtain ⟨x, p⟩ := xp
      obtain ⟨a, f', hrun, hholds, hcore, hp, hk⟩ :=
        h.holds.add_ok hkind hfits hlen' hroom hlt (show f.core.allocator.pool.take id? = some (x, p) by rw [h.pool]; exact ht)
      refine ⟨f', by rw [hrun]; simp only [DataModel.add, if_neg hlen, ht, FileOp.outcome_ok], ?_⟩
      simp only [DataModel.add, if_neg hlen, ht]
      exact ⟨⟨hholds, by rw [hcore, ← hp]⟩, Same.of_core hcore hk⟩
    | none =>
      -- a free id is always handed out, so the id asked for is refused
      cases id? with
      | none => cases ht
      | some y =>
        have hmodel : m.add (ChunkSlot.payloadCapacity f.core.layout) v (some y) = (.error (.idInUse y), m) := by
          simp only [DataModel.add, if_neg hlen, ht, Option.getD_some]
        rw [hmodel, h.holds.add_taken hlen' (hlt y rfl) (by rw [h.pool]; exact ht)]
        exact ⟨f, rfl, h, Same.refl f⟩

/-- Reading a row answers the model's value. -/
theorem Models.get (h : f.Models d m) (x : Nat) :
    ∃ f', DataFile.get x (d, f) = .ok (m.vals x) (d, f') ∧ f'.Models d m ∧ f.Same f' := by
  obtain ⟨f', hrun, hholds, hcore, hk⟩ := h.holds.get x
  exact ⟨f', hrun, ⟨hholds, by rw [hcore]; exact h.pool⟩, Same.of_core_eq hcore hk⟩

/-- Giving a row a value of the file's kind that lies in it answers as the model does. -/
theorem Models.update (h : f.Models d m) {x : Nat} {v : Value} (hkind : v.kind = f.kind) (hfits : v.Fits)
    (hx : x < Nat.pow 256 8) :
    ∃ f', FileOp.outcome (DataFile.update x v (d, f)) =
        ((m.update (ChunkSlot.payloadCapacity f.core.layout) x v).1, (d, f')) ∧
      f'.Models d (m.update (ChunkSlot.payloadCapacity f.core.layout) x v).2 ∧ f.Same f' := by
  by_cases ha : f.core.isAllocated x = true
  · have hal : m.pool.Allocated x := by rw [← h.pool, ← BlockFile.isAllocated_iff_pool]; exact ha
    by_cases hlen : ChunkSlot.payloadCapacity f.core.layout < v.encode.length
    · -- a live row keeps its value when the new one is too large
      obtain ⟨f', hrun, hholds, hcore, hk⟩ := h.holds.update_tooLarge ha hlen
      have hmodel : m.update (ChunkSlot.payloadCapacity f.core.layout) x v =
          (.error (.slot (.tooLarge v.encode.length (ChunkSlot.payloadCapacity f.core.layout))), m) := by
        simp only [DataModel.update, if_pos hal, if_pos hlen]
      rw [hmodel, hrun]
      exact ⟨f', rfl, ⟨hholds, by rw [hcore]; exact h.pool⟩, Same.of_core_eq hcore hk⟩
    · obtain ⟨f', hrun, hholds, hcore, hk⟩ := h.holds.update_live ha hkind hfits (Nat.le_of_not_lt hlen)
      have hmodel : m.update (ChunkSlot.payloadCapacity f.core.layout) x v =
          (.ok (), ⟨m.pool, Function.update m.vals x (some v)⟩) := by
        simp only [DataModel.update, if_pos hal, if_neg hlen]
      rw [hmodel, hrun]
      exact ⟨f', rfl, ⟨hholds, by rw [hcore]; exact h.pool⟩, Same.of_core_eq hcore hk⟩
  · -- any other id is added with the value
    have hal : ¬ m.pool.Allocated x := by rw [← h.pool, ← BlockFile.isAllocated_iff_pool]; exact ha
    obtain ⟨f', hrun, hm, hsame⟩ := h.add hkind hfits (fun hid => absurd hid (Option.some_ne_none x)) (fun y hy => by
      rw [← Option.some.inj hy]
      exact hx)
    have hupd := DataFile.update_not_live h.holds.opened (Bool.eq_false_iff.mpr ha) v (d := d)
    have hmodel : m.update (ChunkSlot.payloadCapacity f.core.layout) x v =
        ((m.add (ChunkSlot.payloadCapacity f.core.layout) v (some x)).1.map fun _ => (),
          (m.add (ChunkSlot.payloadCapacity f.core.layout) v (some x)).2) := by
      simp only [DataModel.update, if_neg hal]
    rw [hmodel, hupd, FileOp.outcome_discard, hrun]
    exact ⟨f', rfl, hm, hsame⟩

/-- Deleting a row answers whether it held a value, and gives its id back to the pool. -/
theorem Models.delete (h : f.Models d m) (x : Nat) :
    ∃ f', DataFile.delete x (d, f) = .ok (m.delete x).1 (d, f') ∧ f'.Models d (m.delete x).2 ∧ f.Same f' := by
  obtain ⟨f', hrun, hholds, hcore, hk⟩ := h.holds.delete x
  refine ⟨f', hrun, ⟨hholds, ?_⟩, Same.of_core hcore hk⟩
  show f'.core.allocator.pool = m.pool.release x
  rw [hcore, (h.holds.core.allocator.release x).1, h.pool]

end DataFile

namespace DataEvent

variable {k : ValueKind} {cap : Nat}

/-- A data file standing for a model answers every allowed event as the model does and keeps
standing for it: each event from its operation's lemma. -/
theorem simulates (k : ValueKind) (cap : Nat) : Simulates onFile (onModel cap) (AllowedOn k) (Tracks k cap) := by
  intro st m e hR he
  obtain ⟨d, f⟩ := st
  obtain ⟨h, hk, hcap⟩ : f.Models d m ∧ f.kind = k ∧ ChunkSlot.payloadCapacity f.core.layout = cap := hR
  subst hk hcap
  cases e with
  | add v id? =>
    obtain ⟨hkind, hfits, hroom, hlt⟩ : v.kind = f.kind ∧ v.Fits ∧
        (id? = none → m.pool.free = [] → m.pool.latest + 1 < Nat.pow 256 8) ∧ ∀ x, id? = some x → x < Nat.pow 256 8 := by
      cases id? with
      | none => exact ⟨he.1, he.2.1, fun _ => he.2.2, fun _ hx => by cases hx⟩
      | some y =>
        refine ⟨he.1, he.2.1, fun hx => absurd hx (Option.some_ne_none y), fun x hx => ?_⟩
        rw [← Option.some.inj hx]
        exact he.2.2
    obtain ⟨f', hrun, hm, hsame⟩ := h.add hkind hfits hroom hlt
    have hfile : onFile (.add v id?) (d, f) =
        ((m.add (ChunkSlot.payloadCapacity f.core.layout) v id?).1.map .id, (d, f')) := by
      simp only [onFile, hrun]
    rw [hfile]
    exact ⟨rfl, hm, hsame.kind, by rw [hsame.layout]⟩
  | get x =>
    obtain ⟨f', hrun, hm, hsame⟩ := h.get x
    have hfile : onFile (.get x) (d, f) = (.ok (.value (m.vals x)), (d, f')) := by
      simp only [onFile, hrun, FileOp.outcome_ok, Except.map]
    rw [hfile]
    exact ⟨rfl, hm, hsame.kind, by rw [hsame.layout]⟩
  | update x v =>
    obtain ⟨hkind, hfits, hx⟩ := he
    obtain ⟨f', hrun, hm, hsame⟩ := h.update hkind hfits hx
    have hfile : onFile (.update x v) (d, f) =
        ((m.update (ChunkSlot.payloadCapacity f.core.layout) x v).1.map fun _ => .done, (d, f')) := by
      simp only [onFile, hrun]
    rw [hfile]
    exact ⟨rfl, hm, hsame.kind, by rw [hsame.layout]⟩
  | delete x =>
    obtain ⟨f', hrun, hm, hsame⟩ := h.delete x
    have hfile : onFile (.delete x) (d, f) = (.ok (.deleted (m.delete x).1), (d, f')) := by
      simp only [onFile, hrun, FileOp.outcome_ok, Except.map]
    rw [hfile]
    exact ⟨rfl, hm, hsame.kind, by rw [hsame.layout]⟩

end DataEvent

/-! ## Flushing and reopening -/

namespace DataFile

variable {d : Disk} {f : DataFile} {M : Nat → Option Value}

/-- Disposes of a data file and opens its store again with the same kind and capacity. -/
def reopen : DataOp Unit := fun st =>
  match DataFile.dispose st with
  | .error e st' => .error e st'
  | .ok _ (d, f) => match DataFile.open d f.core.store f.core.label f.kind f.core.layout.capacity with
    | .ok f' => .ok () (d, f')
    | .error e => .error e (d, f)

/-- Disposing of a file holding a map succeeds, and its store then opens, with the kind and
capacity of the file disposed of, as the same file holding the same map with the same pool. -/
theorem Holds.dispose (h : f.Holds d M) :
    ∃ d' f₁ f', DataFile.dispose (d, f) = .ok () (d', f₁) ∧ f.Same f₁ ∧
      DataFile.open d' f₁.core.store f₁.core.label f₁.kind f₁.core.layout.capacity = .ok f' ∧
      f'.Holds d' M ∧ f'.core.allocator.pool = f.core.allocator.pool ∧ f.Same f' := by
  obtain ⟨d₁, f₁, hrun₁, h₁, hr₁, hk₁, hpool₁, hlayout₁, hstore₁, hlabel₁, hdisp₁, -⟩ := h.flush
  -- disposing flushes the file part a second time, which writes it back again
  obtain ⟨d₂, c, hflush₂, h₂, hpool₂, hlayout₂, hstore₂, hlabel₂, -, hreopen₂⟩ := h₁.flushCore hr₁
  have hdispose : DataFile.dispose (d, f) = .ok () (d₂, { f₁ with core := { c with disposed := true } }) := by
    unfold DataFile.dispose
    simp only [bind, EStateM.bind, FileOp.self, h.opened, Bool.false_eq_true, if_false, hrun₁]
    simp only [onCore, FileOp.zoom, BlockFile.dispose, bind, EStateM.bind, FileOp.self, hdisp₁, h.opened,
      Bool.false_eq_true, if_false, FileOp.zoom_eq_ok (fun _ _ => rfl) hflush₂, FileOp.modify]
  -- the store opens as the file part written back, with an empty cache
  have hopen := open_of_flushed (f := { f₁ with core := c }) hr₁ (by
    rw [← hstore₂, ← hlabel₂, ← hlayout₂] at hreopen₂
    exact hreopen₂)
  have hsame : f.Same { f₁ with core := c } := ⟨hk₁, hlayout₂.trans hlayout₁, hstore₂.trans hstore₁⟩
  exact ⟨d₂, _, _, hdispose, ⟨hsame.kind, hsame.layout, hsame.store⟩, hopen, h₂.reflag false,
    hpool₂.trans hpool₁, ⟨hsame.kind, hsame.layout, hsame.store⟩⟩

/-- Disposing of a file holding a map and opening its store again succeeds, and the file opened
is the same file holding the same map with the same pool. -/
theorem Holds.reopen (h : f.Holds d M) :
    ∃ d' f', DataFile.reopen (d, f) = .ok () (d', f') ∧ f'.Holds d' M ∧
      f'.core.allocator.pool = f.core.allocator.pool ∧ f.Same f' := by
  obtain ⟨d', f₁, f', hdispose, -, hopen, h', hpool, hsame⟩ := h.dispose
  refine ⟨d', f', ?_, h', hpool, hsame⟩
  simp only [DataFile.reopen, hdispose, hopen]

/-- A flush keeps a file standing for its model. -/
theorem Models.flush {m : DataModel} (h : f.Models d m) :
    ∃ d' f', DataFile.flush (d, f) = .ok () (d', f') ∧ f'.Models d' m ∧ f.Same f' := by
  obtain ⟨d', f', hrun, hholds, -, hk, hpool, hlayout, hstore, -⟩ := h.holds.flush
  exact ⟨d', f', hrun, ⟨hholds, hpool.trans h.pool⟩, hk, hlayout, hstore⟩

/-- Reopening keeps a file standing for its model. -/
theorem Models.reopen {m : DataModel} (h : f.Models d m) :
    ∃ d' f', DataFile.reopen (d, f) = .ok () (d', f') ∧ f'.Models d' m ∧ f.Same f' := by
  obtain ⟨d', f', hrun, hholds, hpool, hsame⟩ := h.holds.reopen
  exact ⟨d', f', hrun, ⟨hholds, hpool.trans h.pool⟩, hsame⟩

end DataFile

namespace DataEvent

variable {k : ValueKind} {cap : Nat} {st : Disk × DataFile} {m : DataModel}

/-- A flush keeps a file standing for its model. -/
theorem Tracks.flush (h : Tracks k cap st m) : ∃ st', DataFile.flush st = .ok () st' ∧ Tracks k cap st' m := by
  obtain ⟨hm, hk, hcap⟩ := h
  obtain ⟨d', f', hrun, hm', hsame⟩ := hm.flush
  exact ⟨(d', f'), hrun, hm', hsame.kind.trans hk, by rw [hsame.layout]; exact hcap⟩

/-- Reopening keeps a file standing for its model. -/
theorem Tracks.reopen (h : Tracks k cap st m) : ∃ st', DataFile.reopen st = .ok () st' ∧ Tracks k cap st' m := by
  obtain ⟨hm, hk, hcap⟩ := h
  obtain ⟨d', f', hrun, hm', hsame⟩ := hm.reopen
  exact ⟨(d', f'), hrun, hm', hsame.kind.trans hk, by rw [hsame.layout]; exact hcap⟩

/-- Runs a call on a data file and its store. -/
def callFile : Call Probe DataEvent → Disk × DataFile → Reply Reading DataAnswer × (Disk × DataFile) :=
  Call.onFile onFile (fun f q => q.onCore f.core) DataFile.flush DataFile.reopen

/-- Runs a call on the model of a data file with payloads of at most `cap` bytes. -/
def callModel (cap : Nat) : Call Probe DataEvent → DataModel → Reply Reading DataAnswer × DataModel :=
  Call.onModel (onModel cap) fun m q => q.onPool m.pool

/-- A data file standing for a model runs every allowed call as the model does. -/
theorem calls_simulate (k : ValueKind) (cap : Nat) :
    Simulates callFile (callModel cap) (Call.Allowed (AllowedOn k)) (Tracks k cap) :=
  Call.simulates (simulates k cap)
    (fun st m q h => by rw [Probe.onCore_eq_onPool, h.1.pool])
    (fun _ _ h => h.flush) (fun _ _ h => h.reopen)

end DataEvent

end ColumnDb.Data
