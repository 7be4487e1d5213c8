import Mathlib
import ColumnDb.Proofs.StoreFrame
import ColumnDb.Proofs.TextRows

/-!
# A text file runs as its model

What a program sees of a text file is what it sees of its two files: the model of the pointer
file and the model of the blob file (`TextModel`). The model's operations follow the text file's:
a text's blob is stored first and its pointer after; a pointer refused takes the blob out again; a
row's text is read through its pointer; updating a row without text adds it.

`TextEvent.Tracks` ties a text file to a model: each of its two files stands for its part of the
model, the two lie on different stores, and every nonzero pointer names a blob that no other row
names (`TextModel.Linked`). Every event a program may pass answers as on the model and keeps the
tie (`TextEvent.simulates`). So do a flush and disposing of the file to open both stores again,
since each of the two files writes only its own store.
-/

set_option autoImplicit false

namespace ColumnDb.Blob

open ColumnDb.Slot ColumnDb.Disk ColumnDb.Data ColumnDb.Text
open TextFile (pointer pointerOf pointerOf_pointer kind_pointer fits_pointer length_encode_pointer onPointers onBlobs)

/-- What a program sees of a text file: the model of its pointer file and of its blob file. -/
structure TextModel where
  pointers : DataModel
  blobs : BlobModel

namespace TextModel

/-- The rows' pointers `P` and the blobs `B` are linked: every nonzero pointer names a blob, and
no two rows share one. -/
structure Linked (P : Nat → Option Value) (B : Nat → Option (List UInt8)) : Prop where
  blob : ∀ x v, P x = some v → pointerOf v ≠ 0 → (B (pointerOf v)).isSome
  apart : ∀ x y v w, P x = some v → P y = some w → pointerOf v = pointerOf w → pointerOf v ≠ 0 → x = y

variable (m : TextModel) (p : Nat)

/-- Storing a text's blob, `p` bytes to a slot: empty text has the pointer 0 and no blob, other
text a blob under a free id. -/
def storeBlob (s : String) : Except FileError Nat × BlobModel :=
  if s.isEmpty then (.ok 0, m.blobs) else m.blobs.add p (utf8Bytes s) none

/-- Adding a text: its blob first, then its pointer, eight bytes wide; a pointer refused takes the
blob out again. -/
def add (s : String) (id? : Option Nat) : Except FileError Nat × TextModel :=
  match m.storeBlob p s with
  | (.error e, b) => (.error e, { m with blobs := b })
  | (.ok q, b) =>
    match m.pointers.add 8 (pointer q) id? with
    | (.ok x, ptrs) => (.ok x, ⟨ptrs, b⟩)
    | (.error e, ptrs) => (.error e, ⟨ptrs, if q = 0 then b else (b.delete q).2⟩)

/-- Reading a row's text through its pointer. -/
def get (x : Nat) : Except FileError (Option String) :=
  match m.pointers.vals x with
  | none => .ok none
  | some v =>
    if pointerOf v = 0 then .ok (some "")
    else match m.blobs.blobs (pointerOf v) with
      | none => .error (.corrupt (.missingBlob x (pointerOf v)))
      | some bytes => match decodeUtf8 bytes with
        | .ok s => .ok (some s)
        | .error f => .error (.slot (.undecodable (.notText f)))

/-- Giving a row a text: a row without one is added; otherwise a text appearing gets a new blob,
a text cleared loses its blob and points at 0, and a text changed is written over its blob. -/
def update (x : Nat) (s : String) : Except FileError Unit × TextModel :=
  match m.pointers.vals x with
  | none => ((m.add p s (some x)).1.map fun _ => (), (m.add p s (some x)).2)
  | some v =>
    if pointerOf v = 0 then
      if s.isEmpty then (.ok (), m)
      else match m.storeBlob p s with
        | (.error e, b) => (.error e, { m with blobs := b })
        | (.ok q, b) => ((m.pointers.update 8 x (pointer q)).1, ⟨(m.pointers.update 8 x (pointer q)).2, b⟩)
    else if s.isEmpty then
      ((m.pointers.update 8 x (pointer 0)).1,
        ⟨(m.pointers.update 8 x (pointer 0)).2, (m.blobs.delete (pointerOf v)).2⟩)
    else ((m.blobs.update p (pointerOf v) (utf8Bytes s)).1,
      { m with blobs := (m.blobs.update p (pointerOf v) (utf8Bytes s)).2 })

/-- Deleting a row and its blob, answering whether both were there. -/
def delete (x : Nat) : Bool × TextModel :=
  match m.pointers.vals x with
  | none => (false, m)
  | some v =>
    if pointerOf v = 0 then ((m.pointers.delete x).1, { m with pointers := (m.pointers.delete x).2 })
    else ((m.blobs.delete (pointerOf v)).1 && (m.pointers.delete x).1,
      ⟨(m.pointers.delete x).2, (m.blobs.delete (pointerOf v)).2⟩)

/-! ## Linked pointers -/

namespace Linked

variable {P : Nat → Option Value} {B : Nat → Option (List UInt8)}

/-- No row points at an id without a blob. -/
theorem ne_of_eq_none (h : Linked P B) {q : Nat} (hq : B q = none) {y : Nat} {w : Value} (hy : P y = some w)
    (hw : pointerOf w ≠ 0) : pointerOf w ≠ q := by
  rintro rfl
  have hsome := h.blob y w hy hw
  rw [hq] at hsome
  cases hsome

/-- A row given a zero pointer, or taken out, keeps the pointers linked. -/
theorem clear (h : Linked P B) (x : Nat) {o : Option Value} (ho : ∀ w, o = some w → pointerOf w = 0) :
    Linked (Function.update P x o) B := by
  -- a row with a nonzero pointer afterwards is another row, pointing where it did
  have hold : ∀ y w, Function.update P x o y = some w → pointerOf w ≠ 0 → P y = some w := fun y w hy hw => by
    by_cases hyx : y = x
    · subst hyx
      rw [Function.update_self] at hy
      exact absurd (ho w hy) hw
    · rwa [Function.update_of_ne hyx] at hy
  refine ⟨fun y w hy hw => h.blob y w (hold y w hy hw) hw, fun y z v w hy hz heq hne => ?_⟩
  exact h.apart y z v w (hold y v hy hne) (hold z w hz (heq ▸ hne)) heq hne

/-- Taking out a blob no row points at keeps the pointers linked. -/
theorem unlink (h : Linked P B) {q : Nat} (hq : ∀ y w, P y = some w → pointerOf w ≠ 0 → pointerOf w ≠ q) :
    Linked P (Function.update B q none) :=
  ⟨fun y w hy hw => by rw [Function.update_of_ne (hq y w hy hw)]; exact h.blob y w hy hw, h.apart⟩

/-- Writing a blob keeps the pointers linked. -/
theorem write (h : Linked P B) (q : Nat) (bs : List UInt8) : Linked P (Function.update B q (some bs)) := by
  refine ⟨fun y w hy hw => ?_, h.apart⟩
  by_cases hq : pointerOf w = q
  · rw [hq, Function.update_self]
    rfl
  · rw [Function.update_of_ne hq]
    exact h.blob y w hy hw

/-- A row pointing at a new blob, under an id that had none, keeps the pointers linked: no other
row points there. -/
theorem link (h : Linked P B) (x : Nat) {q : Nat} (hq : B q = none) (bs : List UInt8) :
    Linked (Function.update P x (some (pointer q))) (Function.update B q (some bs)) := by
  refine ⟨fun y w hy hw => ?_, fun y z v w hy hz heq hne => ?_⟩
  · by_cases hyx : y = x
    · subst hyx
      rw [Function.update_self] at hy
      cases hy
      rw [pointerOf_pointer, Function.update_self]
      rfl
    · rw [Function.update_of_ne hyx] at hy
      exact (h.write q bs).blob y w hy hw
  · by_cases hyx : y = x <;> by_cases hzx : z = x
    · rw [hyx, hzx]
    · rw [hyx, Function.update_self] at hy
      cases hy
      rw [Function.update_of_ne hzx] at hz
      rw [pointerOf_pointer] at heq hne
      exact absurd heq.symm (h.ne_of_eq_none hq hz (heq ▸ hne))
    · rw [hzx, Function.update_self] at hz
      cases hz
      rw [Function.update_of_ne hyx] at hy
      rw [pointerOf_pointer] at heq
      exact absurd heq (h.ne_of_eq_none hq hy hne)
    · rw [Function.update_of_ne hyx] at hy
      rw [Function.update_of_ne hzx] at hz
      exact h.apart y z v w hy hz heq hne

/-- A row's blob taken out, with the row taken out too or given a zero pointer, keeps the
pointers linked: only that row pointed at the blob. -/
theorem drop (h : Linked P B) {x : Nat} {v : Value} (hx : P x = some v) {o : Option Value}
    (ho : ∀ w, o = some w → pointerOf w = 0) :
    Linked (Function.update P x o) (Function.update B (pointerOf v) none) := by
  refine (h.clear x ho).unlink fun y w hy hw hwv => ?_
  have hyx : y ≠ x := fun hyx => by
    subst hyx
    rw [Function.update_self] at hy
    exact hw (ho w hy)
  rw [Function.update_of_ne hyx] at hy
  exact hyx (h.apart y x w v hy hx hwv hw)

end Linked

end TextModel

namespace TextFile

/-- Disposes of a text file and opens its two stores again, with the blob capacity of the file
disposed of. -/
def reopen : TextOp Unit := fun st =>
  match TextFile.dispose st with
  | .error e st' => .error e st'
  | .ok _ (d, t) =>
    match TextFile.open d t.pointers.core.store t.blobs.core.store t.pointers.core.label t.blobs.core.label
        t.blobs.core.layout.capacity with
    | .ok t' => .ok () (d, t')
    | .error e => .error e (d, t)

/-- Two text files on the same two stores. -/
def SameStores (t t' : TextFile) : Prop :=
  t'.pointers.core.sid = t.pointers.core.sid ∧ t'.blobs.core.sid = t.blobs.core.sid

theorem SameStores.refl (t : TextFile) : SameStores t t := ⟨rfl, rfl⟩

theorem SameStores.trans {t₁ t₂ t₃ : TextFile} (h₁ : SameStores t₁ t₂) (h₂ : SameStores t₂ t₃) :
    SameStores t₁ t₃ :=
  ⟨h₂.1.trans h₁.1, h₂.2.trans h₁.2⟩

theorem sameStores_of_parts {t : TextFile} {g : DataFile} {f : BlobFile} (hsg : t.pointers.Same g)
    (hsf : t.blobs.Same f) :
    SameStores t ⟨g, f⟩ :=
  ⟨hsg.sid, hsf.sid⟩

end TextFile

/-! ## Events -/

namespace TextEvent

/-- Runs an event on the model of a text file, `p` bytes to a blob slot. -/
def onModel (p : Nat) : TextEvent → TextModel → Except FileError TextAnswer × TextModel
  | .add s id?, m => ((m.add p s id?).1.map .id, (m.add p s id?).2)
  | .get x, m => ((m.get x).map .text, m)
  | .update x s, m => ((m.update p x s).1.map fun _ => .done, (m.update p x s).2)
  | .delete x, m => (.ok (.deleted (m.delete x).1), (m.delete x).2)

/-- What a program may pass, `p` bytes to a blob slot: each text written has room for a new blob,
and each id it names, or the next id it takes, fits a link. -/
def AllowedOn (p : Nat) (m : TextModel) : TextEvent → Prop
  | .add s none => m.blobs.Room p none (utf8Bytes s).length ∧
      (m.pointers.pool.free = [] → m.pointers.pool.latest + 1 < Nat.pow 256 8)
  | .add s (some x) => m.blobs.Room p none (utf8Bytes s).length ∧ x < Nat.pow 256 8
  | .update x s => m.blobs.Room p none (utf8Bytes s).length ∧ x < Nat.pow 256 8
  | .get _ | .delete _ => True

instance (p : Nat) (m : TextModel) : (e : TextEvent) → Decidable (AllowedOn p m e)
  | .add _ none => inferInstanceAs (Decidable (BlobModel.Room _ _ _ _ ∧ (_ → _)))
  | .add _ (some _) => inferInstanceAs (Decidable (BlobModel.Room _ _ _ _ ∧ _))
  | .update _ _ => inferInstanceAs (Decidable (BlobModel.Room _ _ _ _ ∧ _))
  | .get _ | .delete _ => inferInstanceAs (Decidable True)

/-- A text file standing for its model, `p` bytes to a blob slot: the pointer file stands for the
pointer model with eight-byte pointers, the blob file for the blob model, the two lie on
different stores, and the pointers are linked to the blobs. -/
structure Tracks (p : Nat) (st : Disk × TextFile) (m : TextModel) : Prop where
  pointers : DataEvent.Tracks (.int .u64) 8 (st.1, st.2.pointers) m.pointers
  blobs : BlobEvent.Tracks p (st.1, st.2.blobs) m.blobs
  apart : st.2.pointers.core.sid ≠ st.2.blobs.core.sid
  linked : TextModel.Linked m.pointers.vals m.blobs.blobs

variable {p : Nat} {d : Disk} {t : TextFile} {m : TextModel}

/-- The two ways of naming the id of an added text ask for different room. -/
theorem allowedOn_add {s : String} {id? : Option Nat} (he : AllowedOn p m (.add s id?)) :
    m.blobs.Room p none (utf8Bytes s).length ∧
      (id? = none → m.pointers.pool.free = [] → m.pointers.pool.latest + 1 < Nat.pow 256 8) ∧
      ∀ x, id? = some x → x < Nat.pow 256 8 := by
  cases id? with
  | none => exact ⟨he.1, fun _ => he.2, fun _ hx => (by cases hx)⟩
  | some y =>
    refine ⟨he.1, fun hy => (by cases hy), fun x hx => ?_⟩
    rw [← Option.some.inj hx]
    exact he.2

/-- A text file whose two files were replaced by the same files, standing for the parts of a
linked model, stands for that model. -/
theorem Tracks.of_parts (h : Tracks p (d, t) m) {d' : Disk} {g : DataFile} {f : BlobFile} {m' : TextModel}
    (hg : g.Models d' m'.pointers) (hsg : t.pointers.Same g) (hf : f.Models d' m'.blobs) (hsf : t.blobs.Same f)
    (hl : TextModel.Linked m'.pointers.vals m'.blobs.blobs) : Tracks p (d', ⟨g, f⟩) m' := by
  obtain ⟨-, hk, hcap⟩ := h.pointers
  refine ⟨⟨hg, hsg.kind.trans hk, ?_⟩, ⟨hf, ?_⟩, ?_, hl⟩
  · show ChunkSlot.payloadCapacity g.core.layout = 8
    rw [hsg.layout]
    exact hcap
  · show ChunkSlot.payloadCapacity f.core.layout = p
    rw [hsf.layout]
    exact h.blobs.2
  · show g.core.sid ≠ f.core.sid
    rw [hsg.sid, hsf.sid]
    exact h.apart

/-! ## The parts of an operation -/

/-- Reading a row's pointer answers the model's value. -/
theorem Tracks.readPointer (h : Tracks p (d, t) m) (x : Nat) :
    ∃ g, onPointers (DataFile.get x) (d, t) = .ok (m.pointers.vals x) (d, { t with pointers := g }) ∧
      Tracks p (d, { t with pointers := g }) m ∧ TextFile.SameStores t { t with pointers := g } := by
  obtain ⟨g, hrun, hg, hsame⟩ := h.pointers.1.get x
  exact ⟨g, FileOp.zoom_ok hrun, h.of_parts hg hsame h.blobs.1 (BlobFile.Same.refl _) h.linked,
    TextFile.sameStores_of_parts hsame (BlobFile.Same.refl _)⟩

/-- Storing a text's blob with room for it answers as the model does, with a pointer that fits
eight bytes: 0 for empty text, otherwise the id the blob pool hands out next, which held no
blob. A row may then point at the answer, or, if none does, the blob may go again: either way
the pointers stay linked. -/
theorem Tracks.storeBlob (h : Tracks p (d, t) m) {s : String} (hroom : m.blobs.Room p none (utf8Bytes s).length) :
    ∃ q b f, m.storeBlob p s = (.ok q, b) ∧ TextFile.storeBlob s (d, t) = .ok q (d, { t with blobs := f }) ∧
      f.Models d b ∧ t.blobs.Same f ∧ q < Nat.pow 256 8 ∧ (q ≠ 0 → (b.blobs q).isSome) ∧
      (∀ x, TextModel.Linked (Function.update m.pointers.vals x (some (pointer q))) b.blobs) ∧
      TextModel.Linked m.pointers.vals (if q = 0 then b else (b.delete q).2).blobs := by
  obtain ⟨hb, hp⟩ := h.blobs
  by_cases hs : s = ""
  · -- empty text: the pointer 0 and no blob
    subst hs
    refine ⟨0, m.blobs, t.blobs, rfl, rfl, hb, BlobFile.Same.refl _, Nat.pos_of_neZero _, fun h0 => absurd rfl h0,
      fun x => h.linked.clear x fun w hw => ?_, by simpa using h.linked⟩
    cases hw
    exact pointerOf_pointer 0
  · -- other text: a new blob under the id the pool hands out next
    have hempty : s.isEmpty = false := by simpa using hs
    have hfresh : ¬ m.blobs.pool.Allocated m.blobs.pool.next.1 := hb.valid.next.2.2.1
    have hB : m.blobs.blobs m.blobs.pool.next.1 = none := hb.eq_none hfresh
    have hroom₂ : m.blobs.Room (ChunkSlot.payloadCapacity t.blobs.core.layout) none (utf8Bytes s).length := by
      rw [hp]
      exact hroom
    obtain ⟨f, hrun, hf, hsame⟩ := hb.add hroom₂
    rw [hp, BlobModel.add_none] at hrun hf
    refine ⟨_, _, f, by simp only [TextModel.storeBlob, hempty, Bool.false_eq_true, if_false, BlobModel.add_none], ?_,
      hf, hsame, hroom.next_lt hb.valid, fun _ => by simp, fun x => ?_, ?_⟩
    · simp only [TextFile.storeBlob, hempty, Bool.false_eq_true, if_false]
      exact FileOp.zoom_ok (FileOp.eq_ok_of_outcome hrun)
    · rw [BlobModel.blobs_put]
      exact h.linked.link x hB _
    · -- the blob taken out again leaves the blobs as they were but for its id
      have hq0 : m.blobs.pool.next.1 ≠ 0 := Nat.pos_iff_ne_zero.mp hb.valid.next.2.2.2.1
      have hal := hf.allocated_of_isSome (x := m.blobs.pool.next.1) (by simp)
      rw [if_neg hq0, BlobModel.blobs_delete, if_pos hal, BlobModel.blobs_put, Function.update_idem]
      exact h.linked.unlink fun y w hy hw => h.linked.ne_of_eq_none hB hy hw

/-! ## Operations -/

/-- Adding a text answers as the model does: its blob stored, then its pointer added, or refused
with the blob taken out again. -/
theorem Tracks.add (h : Tracks p (d, t) m) {s : String} {id? : Option Nat} (he : AllowedOn p m (.add s id?)) :
    ∃ t', FileOp.outcome (TextFile.add s id? (d, t)) = ((m.add p s id?).1, (d, t')) ∧
      Tracks p (d, t') (m.add p s id?).2 ∧ TextFile.SameStores t t' := by
  obtain ⟨hroom, hroom', hlt⟩ := allowedOn_add he
  obtain ⟨q, b, f, hmstore, hstore, hf, hsf, hq, hqb, hlink, hunlink⟩ := h.storeBlob hroom
  have hpm : t.pointers.Models d m.pointers := h.pointers.1
  have hk : t.pointers.kind = .int .u64 := h.pointers.2.1
  have hcap : ChunkSlot.payloadCapacity t.pointers.core.layout = 8 := h.pointers.2.2
  obtain ⟨g, hptr, hg, hsg⟩ := hpm.add (v := pointer q) (by rw [kind_pointer, hk]) (fits_pointer hq) hroom' hlt
  rw [hcap] at hptr hg
  rcases hr : m.pointers.add 8 (pointer q) id? with ⟨_ | x, ptrs⟩
  · -- the pointer is refused, and the blob goes again
    rename_i e
    rw [hr] at hptr hg
    have hrun : onPointers (DataFile.add (pointer q) id?) (d, { t with blobs := f }) =
        .error e (d, { t with blobs := f, pointers := g }) := FileOp.zoom_error (FileOp.eq_error_of_outcome hptr)
    have hptrs : ptrs = m.pointers := by
      have hsame := DataModel.add_of_error (m := m.pointers) (show (m.pointers.add 8 (pointer q) id?).1 = .error e by
        rw [hr])
      rwa [hr] at hsame
    subst hptrs
    have hmodel : m.add p s id? = (.error e, ⟨m.pointers, if q = 0 then b else (b.delete q).2⟩) := by
      simp only [TextModel.add, hmstore, hr]
    rw [hmodel]
    by_cases hq0 : q = 0
    · refine ⟨{ t with blobs := f, pointers := g }, ?_, ?_, TextFile.sameStores_of_parts hsg hsf⟩
      · unfold TextFile.add
        rw [FileOp.bind_ok hstore, FileOp.tryCatch_error hrun]
        simp only [hq0, bne_self_eq_false, Bool.false_eq_true, if_false]
        rfl
      · rw [if_pos hq0] at hunlink ⊢
        exact h.of_parts hg hsg hf hsf hunlink
    · obtain ⟨f₂, hdel, hf₂, hsf₂⟩ := hf.delete (x := q) fun _ => hqb hq0
      have hdrop : (discard (onBlobs (BlobFile.delete q)) : TextOp PUnit) (d, { t with blobs := f, pointers := g }) =
          .ok () (d, { t with blobs := f₂, pointers := g }) := FileOp.discard_ok (FileOp.zoom_ok hdel)
      refine ⟨{ t with blobs := f₂, pointers := g }, ?_, ?_, TextFile.sameStores_of_parts hsg (hsf.trans hsf₂)⟩
      · unfold TextFile.add
        rw [FileOp.bind_ok hstore, FileOp.tryCatch_error hrun]
        simp only [bne_iff_ne, ne_eq, hq0, not_false_eq_true, if_true]
        rw [FileOp.bind_ok hdrop]
        rfl
      · rw [if_neg hq0] at hunlink ⊢
        exact h.of_parts hg hsg hf₂ (hsf.trans hsf₂) hunlink
  · -- the pointer goes in under the id the pointer pool takes
    rw [hr] at hptr hg
    have hrun : onPointers (DataFile.add (pointer q) id?) (d, { t with blobs := f }) =
        .ok x (d, { t with blobs := f, pointers := g }) := FileOp.zoom_ok (FileOp.eq_ok_of_outcome hptr)
    have hvals : ptrs.vals = Function.update m.pointers.vals x (some (pointer q)) := by
      have hput := DataModel.vals_add_of_ok (m := m.pointers) (show (m.pointers.add 8 (pointer q) id?).1 = .ok x by
        rw [hr])
      rwa [hr] at hput
    have hmodel : m.add p s id? = (.ok x, ⟨ptrs, b⟩) := by
      simp only [TextModel.add, hmstore, hr]
    refine ⟨{ t with blobs := f, pointers := g }, ?_, ?_, TextFile.sameStores_of_parts hsg hsf⟩
    · unfold TextFile.add
      rw [FileOp.bind_ok hstore, FileOp.tryCatch_ok hrun, hmodel]
      rfl
    · rw [hmodel]
      exact h.of_parts hg hsg hf hsf (by rw [hvals]; exact hlink x)

/-- Reading a row's text answers as the model does. -/
theorem Tracks.get (h : Tracks p (d, t) m) (x : Nat) :
    ∃ t', FileOp.outcome (TextFile.get x (d, t)) = (m.get x, (d, t')) ∧ Tracks p (d, t') m ∧ TextFile.SameStores t t' := by
  obtain ⟨g, hread, h₁, hs₁⟩ := h.readPointer x
  cases hv : m.pointers.vals x with
  | none =>
    refine ⟨_, ?_, h₁, hs₁⟩
    unfold TextFile.get
    rw [FileOp.bind_ok hread, hv]
    simp only [TextModel.get, hv]
    rfl
  | some v =>
    by_cases hz : pointerOf v = 0
    · -- empty text has no blob
      refine ⟨_, ?_, h₁, hs₁⟩
      unfold TextFile.get
      rw [FileOp.bind_ok hread, hv]
      simp only [TextModel.get, hv, hz, beq_self_eq_true, if_true]
      rfl
    · -- other text is read from the blob its pointer names
      obtain ⟨bytes, hB⟩ := Option.isSome_iff_exists.mp (h.linked.blob x v hv hz)
      obtain ⟨f, hrun, hf, hcore⟩ := h₁.blobs.1.get (x := pointerOf v) fun _ => h.linked.blob x v hv hz
      have hblob : onBlobs (BlobFile.get (pointerOf v)) (d, { t with pointers := g }) =
          .ok (some bytes) (d, { t with pointers := g, blobs := f }) := by
        rw [← hB]
        exact FileOp.zoom_ok hrun
      refine ⟨_, ?_, h₁.of_parts h₁.pointers.1 (DataFile.Same.refl _) hf ⟨by rw [hcore], by rw [hcore]⟩ h.linked,
        hs₁.trans (TextFile.sameStores_of_parts (DataFile.Same.refl _) ⟨by rw [hcore], by rw [hcore]⟩)⟩
      unfold TextFile.get
      rw [FileOp.bind_ok hread, hv]
      simp only [beq_iff_eq, hz, if_false]
      rw [FileOp.bind_ok hblob]
      cases hd : decodeUtf8 bytes <;> simp only [TextModel.get, hv, hz, if_false, hB, hd] <;> rfl

/-- Giving a row a text answers as the model does, in each of the cases the model tells apart. -/
theorem Tracks.update (h : Tracks p (d, t) m) {x : Nat} {s : String} (he : AllowedOn p m (.update x s)) :
    ∃ t', FileOp.outcome (TextFile.update x s (d, t)) = ((m.update p x s).1, (d, t')) ∧
      Tracks p (d, t') (m.update p x s).2 ∧ TextFile.SameStores t t' := by
  obtain ⟨hroom, hx⟩ := he
  obtain ⟨g, hread, h₁, hs₁⟩ := h.readPointer x
  cases hv : m.pointers.vals x with
  | none =>
    -- a row without text is added
    have he : AllowedOn p m (.add s (some x)) := ⟨hroom, hx⟩
    obtain ⟨t', hadd, h', hs'⟩ := h₁.add he
    have hrun : TextFile.update x s (d, t) =
        (discard (TextFile.add s (some x)) : TextOp PUnit) (d, { t with pointers := g }) := by
      unfold TextFile.update
      rw [FileOp.bind_ok hread, hv]
    have hmodel : m.update p x s = ((m.add p s (some x)).1.map fun _ => (), (m.add p s (some x)).2) := by
      simp only [TextModel.update, hv]
    refine ⟨t', ?_, by rw [hmodel]; exact h', hs₁.trans hs'⟩
    rw [hrun, FileOp.outcome_discard, hadd, hmodel]
  | some v =>
    have hpm : g.Models d m.pointers := h₁.pointers.1
    have hk : g.kind = .int .u64 := h₁.pointers.2.1
    have hcap : ChunkSlot.payloadCapacity g.core.layout = 8 := h₁.pointers.2.2
    have hbm : t.blobs.Models d m.blobs := h.blobs.1
    have hal : m.pointers.pool.Allocated x := (hpm.allocated_iff x).mpr (by rw [hv]; rfl)
    -- a live row's pointer is rewritten in place, whatever the blob file then is
    have hset : ∀ q, m.pointers.update 8 x (pointer q) =
        (.ok (), ⟨m.pointers.pool, Function.update m.pointers.vals x (some (pointer q))⟩) := fun q =>
      DataModel.update_live hal (by rw [length_encode_pointer])
    have hpointer : ∀ {q : Nat} (b : BlobFile), q < Nat.pow 256 8 → ∃ g', onPointers (DataFile.update x (pointer q))
        (d, { t with pointers := g, blobs := b }) = .ok () (d, { t with pointers := g', blobs := b }) ∧
        g'.Models d ⟨m.pointers.pool, Function.update m.pointers.vals x (some (pointer q))⟩ ∧ g.Same g' :=
      fun b hq => by
        obtain ⟨g', hrun, hg', hsg'⟩ := hpm.update (v := pointer _) (by rw [kind_pointer, hk]) (fits_pointer hq) hx
        rw [hcap, hset] at hrun hg'
        exact ⟨g', FileOp.zoom_ok (FileOp.eq_ok_of_outcome hrun), hg', hsg'⟩
    by_cases hz : pointerOf v = 0 <;> by_cases hs : s = ""
    · -- an empty text stays empty
      have hempty : s.isEmpty = true := String.isEmpty_iff.mpr hs
      have hmodel : m.update p x s = (.ok (), m) := by
        simp only [TextModel.update, hv, hz, if_true, hempty]
      refine ⟨{ t with pointers := g }, ?_, by rw [hmodel]; exact h₁, hs₁⟩
      unfold TextFile.update
      rw [FileOp.bind_ok hread, hv, hmodel]
      simp only [hz, beq_self_eq_true, if_true, hempty]
      rfl
    · -- a text appears: a new blob, and the row points at it
      have hempty : s.isEmpty = false := by simpa using hs
      obtain ⟨q, b, f, hmstore, hstore, hf, hsf, hq, -, hlink, -⟩ := h₁.storeBlob hroom
      obtain ⟨g', hset', hg', hsg'⟩ := hpointer f hq
      have hmodel : m.update p x s =
          (.ok (), ⟨⟨m.pointers.pool, Function.update m.pointers.vals x (some (pointer q))⟩, b⟩) := by
        simp only [TextModel.update, hv, hz, if_true, hempty, Bool.false_eq_true, if_false, hmstore, hset]
      refine ⟨{ t with pointers := g', blobs := f }, ?_, ?_, hs₁.trans (TextFile.sameStores_of_parts hsg' hsf)⟩
      · unfold TextFile.update
        rw [FileOp.bind_ok hread, hv, hmodel]
        simp only [hz, beq_self_eq_true, if_true, hempty, Bool.false_eq_true, if_false]
        rw [FileOp.bind_ok hstore, hset']
        rfl
      · rw [hmodel]
        exact h₁.of_parts hg' hsg' hf hsf (hlink x)
    · -- a text cleared: its blob goes, and the row points at 0
      have hempty : s.isEmpty = true := String.isEmpty_iff.mpr hs
      have hBp := h.linked.blob x v hv hz
      obtain ⟨f, hdel, hf, hsf⟩ := hbm.delete (x := pointerOf v) fun _ => hBp
      obtain ⟨g', hset', hg', hsg'⟩ := hpointer f (Nat.pos_of_neZero (Nat.pow 256 8))
      have hdrop : (discard (onBlobs (BlobFile.delete (pointerOf v))) : TextOp PUnit) (d, { t with pointers := g }) =
          .ok () (d, { t with pointers := g, blobs := f }) := FileOp.discard_ok (FileOp.zoom_ok hdel)
      have hmodel : m.update p x s =
          (.ok (), ⟨⟨m.pointers.pool, Function.update m.pointers.vals x (some (pointer 0))⟩,
            (m.blobs.delete (pointerOf v)).2⟩) := by
        simp only [TextModel.update, hv, hz, if_false, hempty, if_true, hset]
      refine ⟨{ t with pointers := g', blobs := f }, ?_, ?_, hs₁.trans (TextFile.sameStores_of_parts hsg' hsf)⟩
      · unfold TextFile.update
        rw [FileOp.bind_ok hread, hv, hmodel]
        simp only [beq_iff_eq, hz, if_false, hempty, if_true]
        rw [FileOp.bind_ok hdrop, hset']
        rfl
      · rw [hmodel]
        refine h₁.of_parts hg' hsg' hf hsf ?_
        show TextModel.Linked (Function.update m.pointers.vals x (some (pointer 0))) (m.blobs.delete (pointerOf v)).2.blobs
        rw [BlobModel.blobs_delete, if_pos (hbm.allocated_of_isSome hBp)]
        exact h.linked.drop hv fun w hw => by
          cases hw
          exact pointerOf_pointer 0
    · -- a text changed: its blob is written over in place
      have hempty : s.isEmpty = false := by simpa using hs
      have hBp := h.linked.blob x v hv hz
      have hal' := hbm.allocated_of_isSome hBp
      have hp : ChunkSlot.payloadCapacity t.blobs.core.layout = p := h.blobs.2
      have hroom₂ : m.blobs.Room (ChunkSlot.payloadCapacity t.blobs.core.layout) (some (pointerOf v))
          (utf8Bytes s).length := by
        rw [hp]
        exact hroom.some_of_le hal'.2.1
      obtain ⟨f, hupd, hf, hsf⟩ := hbm.update (fun _ => hBp) hroom₂
      have hblob : m.blobs.update p (pointerOf v) (utf8Bytes s) =
          (.ok (), m.blobs.put p m.blobs.pool (pointerOf v) (m.blobs.slots (pointerOf v)) (utf8Bytes s)) := by
        simp only [BlobModel.update, if_pos hal']
      rw [hp, hblob] at hupd hf
      have hrun : onBlobs (BlobFile.update (pointerOf v) (utf8Bytes s)) (d, { t with pointers := g }) =
          .ok () (d, { t with pointers := g, blobs := f }) := FileOp.zoom_ok (FileOp.eq_ok_of_outcome hupd)
      have hmodel : m.update p x s =
          (.ok (), { m with blobs := m.blobs.put p m.blobs.pool (pointerOf v) (m.blobs.slots (pointerOf v)) (utf8Bytes s) }) := by
        simp only [TextModel.update, hv, hz, if_false, hempty, Bool.false_eq_true, hblob]
      refine ⟨{ t with pointers := g, blobs := f }, ?_, ?_, hs₁.trans (TextFile.sameStores_of_parts (DataFile.Same.refl _) hsf)⟩
      · unfold TextFile.update
        rw [FileOp.bind_ok hread, hv, hmodel]
        simp only [beq_iff_eq, hz, if_false, hempty, Bool.false_eq_true]
        rw [hrun]
        rfl
      · rw [hmodel]
        exact h₁.of_parts hpm (DataFile.Same.refl _) hf hsf (h.linked.write _ _)

/-- Deleting a row answers as the model does: its blob goes first, then its pointer. -/
theorem Tracks.delete (h : Tracks p (d, t) m) (x : Nat) :
    ∃ t', TextFile.delete x (d, t) = .ok (m.delete x).1 (d, t') ∧ Tracks p (d, t') (m.delete x).2 ∧
      TextFile.SameStores t t' := by
  obtain ⟨g, hread, h₁, hs₁⟩ := h.readPointer x
  cases hv : m.pointers.vals x with
  | none =>
    have hmodel : m.delete x = (false, m) := by
      simp only [TextModel.delete, hv]
    refine ⟨_, ?_, by rw [hmodel]; exact h₁, hs₁⟩
    unfold TextFile.delete
    rw [FileOp.bind_ok hread, hv, hmodel]
    rfl
  | some v =>
    have hpm : g.Models d m.pointers := h₁.pointers.1
    have hbm : t.blobs.Models d m.blobs := h.blobs.1
    -- the pointer goes last, whatever the blob file then is
    have hpointer : ∀ b : BlobFile, ∃ g', onPointers (DataFile.delete x) (d, { t with pointers := g, blobs := b }) =
        .ok (m.pointers.delete x).1 (d, { t with pointers := g', blobs := b }) ∧
        g'.Models d (m.pointers.delete x).2 ∧ g.Same g' := fun b => by
      obtain ⟨g', hrun, hg', hsg'⟩ := hpm.delete x
      exact ⟨g', FileOp.zoom_ok hrun, hg', hsg'⟩
    have hvals : (m.pointers.delete x).2.vals = Function.update m.pointers.vals x none := rfl
    by_cases hz : pointerOf v = 0
    · obtain ⟨g', hdel, hg', hsg'⟩ := hpointer t.blobs
      have hmodel : m.delete x = ((m.pointers.delete x).1, { m with pointers := (m.pointers.delete x).2 }) := by
        simp only [TextModel.delete, hv, hz, if_true]
      refine ⟨{ t with pointers := g' }, ?_, ?_, hs₁.trans (TextFile.sameStores_of_parts hsg' (BlobFile.Same.refl _))⟩
      · unfold TextFile.delete
        rw [FileOp.bind_ok hread, hv, hmodel]
        simp only [hz, beq_self_eq_true, if_true, pure_bind]
        rw [FileOp.bind_ok hdel]
        simp only [Bool.true_and]
        rfl
      · rw [hmodel]
        refine h₁.of_parts hg' hsg' hbm (BlobFile.Same.refl _) ?_
        show TextModel.Linked (m.pointers.delete x).2.vals m.blobs.blobs
        rw [hvals]
        exact h.linked.clear x fun w hw => by cases hw
    · have hBp := h.linked.blob x v hv hz
      obtain ⟨f, hbdel, hf, hsf⟩ := hbm.delete (x := pointerOf v) fun _ => hBp
      have hblob : onBlobs (BlobFile.delete (pointerOf v)) (d, { t with pointers := g }) =
          .ok (m.blobs.delete (pointerOf v)).1 (d, { t with pointers := g, blobs := f }) := FileOp.zoom_ok hbdel
      obtain ⟨g', hdel, hg', hsg'⟩ := hpointer f
      have hmodel : m.delete x = ((m.blobs.delete (pointerOf v)).1 && (m.pointers.delete x).1,
          ⟨(m.pointers.delete x).2, (m.blobs.delete (pointerOf v)).2⟩) := by
        simp only [TextModel.delete, hv, hz, if_false]
      refine ⟨{ t with pointers := g', blobs := f }, ?_, ?_, hs₁.trans (TextFile.sameStores_of_parts hsg' hsf)⟩
      · unfold TextFile.delete
        rw [FileOp.bind_ok hread, hv, hmodel]
        simp only [beq_iff_eq, hz, if_false]
        rw [FileOp.bind_ok hblob, FileOp.bind_ok hdel]
        rfl
      · rw [hmodel]
        refine h₁.of_parts hg' hsg' hf hsf ?_
        show TextModel.Linked (m.pointers.delete x).2.vals (m.blobs.delete (pointerOf v)).2.blobs
        rw [hvals, BlobModel.blobs_delete, if_pos (hbm.allocated_of_isSome hBp)]
        exact h.linked.drop hv fun w hw => by cases hw

/-! ## Runs of events and calls -/

theorem onFile_add (s : String) (id? : Option Nat) (st : Disk × TextFile) :
    onFile (.add s id?) st =
      ((FileOp.outcome (TextFile.add s id? st)).1.map .id, (FileOp.outcome (TextFile.add s id? st)).2) := by
  cases hrun : TextFile.add s id? st <;> simp only [onFile, hrun, FileOp.outcome_ok, FileOp.outcome_error, Except.map]

theorem onFile_get (x : Nat) (st : Disk × TextFile) :
    onFile (.get x) st = ((FileOp.outcome (TextFile.get x st)).1.map .text, (FileOp.outcome (TextFile.get x st)).2) := by
  cases hrun : TextFile.get x st <;> simp only [onFile, hrun, FileOp.outcome_ok, FileOp.outcome_error, Except.map]

theorem onFile_update (x : Nat) (s : String) (st : Disk × TextFile) :
    onFile (.update x s) st =
      ((FileOp.outcome (TextFile.update x s st)).1.map fun _ => .done, (FileOp.outcome (TextFile.update x s st)).2) := by
  cases hrun : TextFile.update x s st <;>
    simp only [onFile, hrun, FileOp.outcome_ok, FileOp.outcome_error, Except.map]

/-- A text file standing for a model answers every allowed event as the model does and keeps
standing for it: each event from its operation's lemma. -/
theorem simulates (p : Nat) : Simulates onFile (onModel p) (AllowedOn p) (Tracks p) := by
  intro st m e hR he
  obtain ⟨d, t⟩ := st
  cases e with
  | add s id? =>
    obtain ⟨t', hrun, h', -⟩ := hR.add he
    rw [onFile_add, hrun]
    exact ⟨rfl, h'⟩
  | get x =>
    obtain ⟨t', hrun, h', -⟩ := hR.get x
    rw [onFile_get, hrun]
    exact ⟨rfl, h'⟩
  | update x s =>
    obtain ⟨t', hrun, h', -⟩ := hR.update he
    rw [onFile_update, hrun]
    exact ⟨rfl, h'⟩
  | delete x =>
    obtain ⟨t', hrun, h', -⟩ := hR.delete x
    have hfile : onFile (.delete x) (d, t) = (.ok (.deleted (m.delete x).1), (d, t')) := by
      simp only [onFile, hrun]
    rw [hfile]
    exact ⟨rfl, h'⟩

/-- A flush keeps a text file standing for its model, on the same two stores: each of its two
files writes only its own store, the blobs' first. -/
theorem Tracks.flush_touches {st : Disk × TextFile} (h : Tracks p st m) :
    ∃ st', TextFile.flush st = .ok () st' ∧ Tracks p st' m ∧
      Disk.Touches (fun s => s = st.2.pointers.core.sid ∨ s = st.2.blobs.core.sid) st.1 st'.1 ∧
      st'.2.pointers.core.sid = st.2.pointers.core.sid ∧ st'.2.blobs.core.sid = st.2.blobs.core.sid := by
  obtain ⟨d, t⟩ := st
  have hpm : t.pointers.Models d m.pointers := h.pointers.1
  have hbm : t.blobs.Models d m.blobs := h.blobs.1
  -- the blobs first, which leaves the pointer store as it was
  obtain ⟨d₁, f, hrun₁, hf, hsf⟩ := hbm.flush
  have hw₁ := (BlobFile.writesIn_flush d t.blobs () d₁ f hrun₁).1
  obtain ⟨d₂, g, hrun₂, hg, hsg⟩ := (hpm.apart hw₁ (Ne.symm h.apart)).flush
  -- then the pointers, which leave the blob store as it was
  have hw₂ := (DataFile.writesIn_flush d₁ t.pointers () d₂ g hrun₂).1
  have hf₂ := hf.apart hw₂ (by rw [hsf.sid]; exact h.apart)
  have hb : onBlobs BlobFile.flush (d, t) = .ok () (d₁, { t with blobs := f }) := FileOp.zoom_ok hrun₁
  have hq : onPointers DataFile.flush (d₁, { t with blobs := f }) = .ok () (d₂, ⟨g, f⟩) := FileOp.zoom_ok hrun₂
  refine ⟨(d₂, ⟨g, f⟩), ?_, h.of_parts hg hsg hf₂ hsf h.linked,
    hw₁.touches (.inr rfl) |>.trans (hw₂.touches (.inl rfl)), hsg.sid, hsf.sid⟩
  unfold TextFile.flush
  rw [FileOp.bind_ok hb, hq]

theorem Tracks.flush {st : Disk × TextFile} (h : Tracks p st m) :
    ∃ st', TextFile.flush st = .ok () st' ∧ Tracks p st' m := by
  obtain ⟨st', hrun, h', -⟩ := h.flush_touches
  exact ⟨st', hrun, h'⟩

/-- Disposing of a text file and opening its two stores again keeps it standing for its model:
each file, disposed of, opens again as it was, and disposing of one leaves the other's store as
it was. -/
theorem Tracks.reopen {st : Disk × TextFile} (h : Tracks p st m) :
    ∃ st', TextFile.reopen st = .ok () st' ∧ Tracks p st' m := by
  obtain ⟨d, t⟩ := st
  have hpm : t.pointers.Models d m.pointers := h.pointers.1
  have hbm : t.blobs.Models d m.blobs := h.blobs.1
  -- the blobs first, which leaves the pointer store as it was
  obtain ⟨d₁, f₁, f', hdisp₁, hsf₁, hopen₁, hf', hpool₁, hsf'⟩ := hbm.holds.dispose
  have hw₁ := (BlobFile.writesIn_dispose d t.blobs () d₁ f₁ hdisp₁).1
  obtain ⟨d₂, g₁, g', hdisp₂, hsg₁, hopen₂, hg', hpool₂, hsg'⟩ := (hpm.apart hw₁ (Ne.symm h.apart)).holds.dispose
  -- then the pointers, which leave the blob store as it was
  have hw₂ := (DataFile.writesIn_dispose d₁ t.pointers () d₂ g₁ hdisp₂).1
  have hdispose : TextFile.dispose (d, t) = .ok () (d₂, ⟨g₁, f₁⟩) := by
    have hb : onBlobs BlobFile.dispose (d, t) = .ok () (d₁, { t with blobs := f₁ }) := FileOp.zoom_ok hdisp₁
    have hq : onPointers DataFile.dispose (d₁, { t with blobs := f₁ }) = .ok () (d₂, ⟨g₁, f₁⟩) :=
      FileOp.zoom_ok hdisp₂
    unfold TextFile.dispose
    rw [FileOp.bind_ok hb, hq]
  -- the pointers open again with their fixed kind and capacity, the blobs as the blob file left them
  have hkind : g₁.kind = .int .u64 := hsg₁.kind.trans h.pointers.2.1
  have hcapacity : g₁.core.layout.capacity = pointerCapacity := by
    have hcap : t.pointers.core.layout.capacity - chunkHeader = 8 := h.pointers.2.2
    rw [hsg₁.layout, pointerCapacity]
    omega
  have hblobs : BlobFile.open d₂ f₁.core.store f₁.core.label f₁.core.layout.capacity = .ok f' := by
    rw [BlobFile.open_apart hw₂ (show f₁.core.sid ≠ t.pointers.core.sid by rw [hsf₁.sid]; exact Ne.symm h.apart)]
    exact hopen₁
  rw [hkind, hcapacity] at hopen₂
  have hopen : TextFile.open d₂ g₁.core.store f₁.core.store g₁.core.label f₁.core.label f₁.core.layout.capacity =
      .ok ⟨g', f'⟩ := by
    unfold TextFile.open
    simp only [hopen₂, hblobs, bind, Except.bind, pure, Except.pure]
  refine ⟨(d₂, ⟨g', f'⟩), ?_, h.of_parts ⟨hg', hpool₂.trans hpm.pool⟩ hsg'
    ⟨hf'.apart hw₂ (by rw [hsf'.sid]; exact h.apart), hpool₁.trans hbm.pool⟩ hsf' h.linked⟩
  simp only [TextFile.reopen, hdispose, hopen]

end TextEvent

/-- What a program reads of a text file without changing it: the ids of its pointer file, which
are its rows, or of its blob file. -/
inductive TextProbe where
  | pointers (q : Probe)
  | blobs (q : Probe)
deriving DecidableEq, Repr

namespace TextProbe

/-- Reads a text file. -/
def onFile (t : TextFile) : TextProbe → Reading
  | .pointers q => q.onCore t.pointers.core
  | .blobs q => q.onCore t.blobs.core

/-- Reads the model of a text file. -/
def onModel (m : TextModel) : TextProbe → Reading
  | .pointers q => q.onPool m.pointers.pool
  | .blobs q => q.onPool m.blobs.pool

end TextProbe

namespace TextEvent

/-- Runs a call on a text file and its store. -/
def callFile : Call TextProbe TextEvent → Disk × TextFile → Reply Reading TextAnswer × (Disk × TextFile) :=
  Call.onFile onFile (fun t q => q.onFile t) TextFile.flush TextFile.reopen

/-- Runs a call on the model of a text file, `p` bytes to a blob slot. -/
def callModel (p : Nat) : Call TextProbe TextEvent → TextModel → Reply Reading TextAnswer × TextModel :=
  Call.onModel (onModel p) fun m q => q.onModel m

/-- A text file standing for a model runs every allowed call as the model does. -/
theorem calls_simulate (p : Nat) : Simulates callFile (callModel p) (Call.Allowed (AllowedOn p)) (Tracks p) :=
  Call.simulates (simulates p)
    (fun st m q h => by
      have hpointers : st.2.pointers.core.allocator.pool = m.pointers.pool := h.pointers.1.pool
      have hblobs : st.2.blobs.core.allocator.pool = m.blobs.pool := h.blobs.1.pool
      cases q with
      | pointers q => rw [TextProbe.onFile, TextProbe.onModel, Probe.onCore_eq_onPool, hpointers]
      | blobs q => rw [TextProbe.onFile, TextProbe.onModel, Probe.onCore_eq_onPool, hblobs])
    (fun _ _ h => h.flush) (fun _ _ h => h.reopen)

end TextEvent

end ColumnDb.Blob
