import Mathlib
import ColumnDb.Proofs.BlobIds
import ColumnDb.Proofs.DataRows
import ColumnDb.Blob.Text

/-!
# Text files keep texts

A text file keeps each row's text in two files: the pointer file holds the row's pointer, and the
blob file holds the text's UTF-8 bytes under that pointer; empty text has the pointer 0 and no
blob. `TextFile.Consistent T P B` says how the texts `T`, the pointers `P` and the blobs `B`
agree: a row holds a text exactly when it holds a pointer, the pointer is 0 exactly for empty text
and otherwise names the blob of the text's bytes, no two rows share a nonzero pointer, and there
are blobs only at the nonzero pointers of rows, so none is left behind. Putting a row in under a
fresh pointer and taking one out keep the agreement (`Consistent.insert`, `Consistent.erase`);
every write of a text file is one of these, or one after the other.

`TextFile.Holds d t T P B` adds that the two files hold `P` and `B`. Reading, adding, rewriting and
deleting a text answer as the map `T` does and keep the invariant (`Holds.get`, `Holds.add`,
`Holds.update`, `Holds.delete`), so every run of them on a new file reads back, at each id, the
text last stored there (`TextEvent.runFile_keeps_texts`).
-/

set_option autoImplicit false

namespace ColumnDb.Slot.FileOp

open ColumnDb.Disk

variable {σ α : Type} {m : FileOp σ α} {k : FileError → FileOp σ α} {st st' : Disk × σ}

/-- A caught operation that succeeds is the operation. -/
theorem tryCatch_ok {a : α} (h : m st = .ok a st') : tryCatch m k st = .ok a st' := by
  simp only [tryCatch, tryCatchThe, MonadExceptOf.tryCatch, EStateM.tryCatch, h]

/-- A caught operation that fails hands its error, and the state it left, to the handler. -/
theorem tryCatch_error {e : FileError} (h : m st = .error e st') : tryCatch m k st = k e st' := by
  simp only [tryCatch, tryCatchThe, MonadExceptOf.tryCatch, EStateM.tryCatch, h]
  rfl

theorem discard_ok {a : α} (h : m st = .ok a st') : (discard m : FileOp σ PUnit) st = .ok () st' := by
  simp only [discard, Functor.mapConst, Function.comp_apply, EStateM.map, h]

theorem discard_error {e : FileError} (h : m st = .error e st') :
    (discard m : FileOp σ PUnit) st = .error e st' := by
  simp only [discard, Functor.mapConst, Function.comp_apply, EStateM.map, h]

end ColumnDb.Slot.FileOp

namespace ColumnDb.Blob

open ColumnDb.Slot ColumnDb.Disk ColumnDb.Data ColumnDb.Text

namespace BlobFile

variable {d : Disk} {f : BlobFile} {M : Nat → Option (List UInt8)}

/-- The id of a blob fits a link. -/
theorem Stores.lt_of_isSome (h : f.Stores d M) {x : Nat} (hx : (M x).isSome) : x < Nat.pow 256 8 := by
  obtain ⟨c, hc, -⟩ := h.getElem?_of_isSome hx
  exact Nat.lt_of_le_of_lt (h.allocated_of_getElem? hc).2.1 h.splits.core.allocator.latest_lt

/-- Room for a new blob is room to write it over a blob that is there. -/
theorem Stores.room_some (h : f.Stores d M) {x len : Nat} (hx : (M x).isSome) (hroom : f.Room none len) :
    f.Room (some x) len := by
  obtain ⟨c, hc, -⟩ := h.getElem?_of_isSome hx
  have hle : x ≤ f.core.latest := (h.allocated_of_getElem? hc).2.1
  unfold Room at hroom ⊢
  simp only [Option.getD_some, Option.getD_none, Nat.max_eq_left hle, Nat.max_eq_left (Nat.zero_le _)] at hroom ⊢
  exact hroom

end BlobFile

namespace TextFile

@[simp] theorem pointerOf_pointer (p : Nat) : pointerOf (pointer p) = p := by
  simp [pointerOf, pointer]

@[simp] theorem kind_pointer (p : Nat) : (pointer p).kind = .int .u64 := rfl

theorem fits_pointer {p : Nat} (hp : p < Nat.pow 256 8) : (pointer p).Fits := by
  simp only [pointer, Value.Fits, IntKind.fits, IntKind.min, IntKind.max, IntKind.signed, IntKind.width]
  norm_num [Nat.pow_eq] at hp ⊢
  omega

@[simp] theorem length_encode_pointer (p : Nat) : (pointer p).encode.length = 8 :=
  Bytes.writeLE_length _ _

/-- The pointer file's map of a map of pointers. -/
def pointerValues (P : Nat → Option Nat) (k : Nat) : Option Value := (P k).map pointer

theorem pointerValues_update (P : Nat → Option Nat) (x : Nat) (q : Option Nat) :
    pointerValues (Function.update P x q) = Function.update (pointerValues P) x (q.map pointer) := by
  funext k
  by_cases hk : k = x
  · subst hk
    simp [pointerValues]
  · simp [pointerValues, Function.update_of_ne hk]

/-! ## Texts, pointers and blobs -/

/-- How the texts of the rows, their pointers and the blobs agree. -/
structure Consistent (T : Nat → Option String) (P : Nat → Option Nat) (B : Nat → Option (List UInt8)) :
    Prop where
  live : ∀ k, (P k).isSome = (T k).isSome
  text : ∀ k s, T k = some s → ∃ p, P k = some p ∧ (p = 0 ↔ s = "") ∧ (p ≠ 0 → B p = some (utf8Bytes s))
  apart : ∀ k k' p, P k = some p → P k' = some p → p ≠ 0 → k = k'
  owned : ∀ p, (B p).isSome ↔ p ≠ 0 ∧ ∃ k, P k = some p

variable {T : Nat → Option String} {P : Nat → Option Nat} {B : Nat → Option (List UInt8)}

theorem consistent_empty : Consistent (fun _ => none) (fun _ => none) (fun _ => none) :=
  ⟨fun _ => rfl, fun _ _ h => (by cases h), fun _ _ _ h => (by cases h), fun _ => by simp⟩

theorem Consistent.pointer_eq_none (hc : Consistent T P B) {k : Nat} (hk : T k = none) : P k = none := by
  simpa [hk] using hc.live k

/-- A row without text put in, under a pointer that is 0 for empty text and otherwise names no
blob: the agreement holds with the text's blob put at the pointer. -/
theorem Consistent.insert (hc : Consistent T P B) {x q : Nat} {s : String} (hx : T x = none)
    (hq : q = 0 ↔ s = "") (hfresh : q ≠ 0 → B q = none) :
    Consistent (Function.update T x (some s)) (Function.update P x (some q))
      (if q = 0 then B else Function.update B q (some (utf8Bytes s))) := by
  have hPx : P x = none := hc.pointer_eq_none hx
  -- no row points at a pointer with no blob
  have hnone : q ≠ 0 → ∀ k, P k ≠ some q := fun hq0 k hk => by
    have hB := (hc.owned q).mpr ⟨hq0, k, hk⟩
    rw [hfresh hq0] at hB
    cases hB
  have hne : ∀ k p, P k = some p → k ≠ x := fun k p hk hkx => by
    rw [hkx, hPx] at hk
    cases hk
  refine ⟨fun k => ?_, fun k s' hs' => ?_, fun k k' p hk hk' hp => ?_, fun p => ?_⟩
  · by_cases hk : k = x
    · subst hk
      simp
    · simp [Function.update_of_ne hk, hc.live k]
  · by_cases hk : k = x
    · subst hk
      rw [Function.update_self, Option.some.injEq] at hs'
      subst hs'
      refine ⟨q, Function.update_self .., hq, fun hq0 => ?_⟩
      rw [if_neg hq0, Function.update_self]
    · rw [Function.update_of_ne hk] at hs' ⊢
      obtain ⟨p, hp, hp0, hpB⟩ := hc.text k s' hs'
      refine ⟨p, hp, hp0, fun hpne => ?_⟩
      split_ifs with hq0
      · exact hpB hpne
      · rw [Function.update_of_ne fun hpq => hnone hq0 k (by rw [← hpq]; exact hp)]
        exact hpB hpne
  · -- the new row's pointer is fresh, so it meets no other row's
    by_cases hkx : k = x <;> by_cases hkx' : k' = x
    · rw [hkx, hkx']
    · rw [hkx, Function.update_self, Option.some.injEq] at hk
      rw [Function.update_of_ne hkx', ← hk] at hk'
      exact absurd hk' (hnone (hk ▸ hp) k')
    · rw [hkx', Function.update_self, Option.some.injEq] at hk'
      rw [Function.update_of_ne hkx, ← hk'] at hk
      exact absurd hk (hnone (hk' ▸ hp) k)
    · rw [Function.update_of_ne hkx] at hk
      rw [Function.update_of_ne hkx'] at hk'
      exact hc.apart k k' p hk hk' hp
  · -- the rows pointing at `p` afterwards are the old ones and, if `p = q`, the new row
    have hrows : (∃ k, Function.update P x (some q) k = some p) ↔ q = p ∨ ∃ k, P k = some p := by
      constructor
      · rintro ⟨k, hk⟩
        by_cases hkx : k = x
        · rw [hkx, Function.update_self, Option.some.injEq] at hk
          exact .inl hk
        · rw [Function.update_of_ne hkx] at hk
          exact .inr ⟨k, hk⟩
      · rintro (rfl | ⟨k, hk⟩)
        · exact ⟨x, Function.update_self ..⟩
        · exact ⟨k, by rw [Function.update_of_ne (hne k p hk)]; exact hk⟩
    rw [hrows]
    split_ifs with hq0
    · subst hq0
      rw [hc.owned p]
      constructor
      · rintro ⟨hp, hk⟩
        exact ⟨hp, .inr hk⟩
      · rintro ⟨hp, h0 | hk⟩
        · exact absurd h0.symm hp
        · exact ⟨hp, hk⟩
    · by_cases hpq : p = q
      · subst hpq
        simp [hq0]
      · rw [Function.update_of_ne hpq, hc.owned p]
        simp [Ne.symm hpq]

/-- A row taken out, with the blob of its nonzero pointer: the agreement holds. -/
theorem Consistent.erase (hc : Consistent T P B) {x p : Nat} (hx : P x = some p) :
    Consistent (Function.update T x none) (Function.update P x none)
      (if p = 0 then B else Function.update B p none) := by
  -- only the row itself points at its nonzero pointer
  have hother : ∀ k, P k = some p → p ≠ 0 → k = x := fun k hk hp0 => hc.apart k x p hk hx hp0
  have hlive : ∀ k p', Function.update P x none k = some p' → k ≠ x ∧ P k = some p' := fun k p' hk => by
    by_cases hkx : k = x
    · rw [hkx, Function.update_self] at hk
      cases hk
    · rw [Function.update_of_ne hkx] at hk
      exact ⟨hkx, hk⟩
  refine ⟨fun k => ?_, fun k s hs => ?_, fun k k' p' hk hk' hp => ?_, fun p' => ?_⟩
  · by_cases hk : k = x
    · subst hk
      simp
    · simp [Function.update_of_ne hk, hc.live k]
  · have hk : k ≠ x := fun hkx => by
      rw [hkx, Function.update_self] at hs
      cases hs
    rw [Function.update_of_ne hk] at hs ⊢
    obtain ⟨p', hp', hp0, hpB⟩ := hc.text k s hs
    refine ⟨p', hp', hp0, fun hpne => ?_⟩
    split_ifs with hz
    · exact hpB hpne
    · rw [Function.update_of_ne fun hpp => hk (hother k (by rw [← hpp]; exact hp') hz)]
      exact hpB hpne
  · exact hc.apart k k' p' (hlive k p' hk).2 (hlive k' p' hk').2 hp
  · -- other pointers keep their rows; the row's own nonzero pointer is left with none
    have hrows : ∀ p', p' ≠ p → ((∃ k, Function.update P x none k = some p') ↔ ∃ k, P k = some p') := by
      intro p' hpp
      constructor
      · rintro ⟨k, hk⟩
        exact ⟨k, (hlive k p' hk).2⟩
      · rintro ⟨k, hk⟩
        have hkx : k ≠ x := fun h => hpp (by rw [h, hx] at hk; exact (Option.some.inj hk).symm)
        exact ⟨k, by rw [Function.update_of_ne hkx]; exact hk⟩
    split_ifs with hz
    · rw [hc.owned p']
      by_cases hp0 : p' = 0
      · simp [hp0]
      · rw [hrows p' (by rw [hz]; exact hp0)]
    · by_cases hpp : p' = p
      · rw [hpp, Function.update_self]
        simp only [Option.isSome_none, Bool.false_eq_true, false_iff, not_and, not_exists]
        intro _ k hk
        exact (hlive k p hk).1 (hother k (hlive k p hk).2 hz)
      · rw [Function.update_of_ne hpp, hc.owned p', hrows p' hpp]

/-- A row given a new text: the blob of its old pointer dropped, then the row put back under a
pointer that is 0 for empty text and otherwise names no blob left. -/
theorem Consistent.replace (hc : Consistent T P B) {x p q : Nat} {s : String} (hx : P x = some p)
    (hq : q = 0 ↔ s = "") (hfresh : q ≠ 0 → (if p = 0 then B else Function.update B p none) q = none) :
    Consistent (Function.update T x (some s)) (Function.update P x (some q))
      (if q = 0 then (if p = 0 then B else Function.update B p none)
        else Function.update (if p = 0 then B else Function.update B p none) q (some (utf8Bytes s))) := by
  have h := (hc.erase hx).insert (x := x) (Function.update_self ..) hq hfresh
  simpa only [Function.update_idem] using h

/-! ## The invariant -/

/-- A text file holding the texts `T`: its pointer file holds the pointers `P`, its blob file the
blobs `B`, and the three agree. -/
structure Holds (d : Disk) (t : TextFile) (T : Nat → Option String) (P : Nat → Option Nat)
    (B : Nat → Option (List UInt8)) : Prop where
  pointers : t.pointers.Holds d (pointerValues P)
  kind : t.pointers.kind = .int .u64
  width : 8 ≤ ChunkSlot.payloadCapacity t.pointers.core.layout
  blobs : t.blobs.Stores d B
  consistent : Consistent T P B

variable {d : Disk} {t : TextFile}

/-- Reading a row's pointer answers it and keeps the invariant. -/
theorem Holds.readPointer (h : t.Holds d T P B) (x : Nat) :
    ∃ f, onPointers (DataFile.get x) (d, t) = .ok ((P x).map pointer) (d, { t with pointers := f }) ∧
      ({ t with pointers := f } : TextFile).Holds d T P B := by
  obtain ⟨f, hrun, hf, hcore, hkind⟩ := h.pointers.get x
  exact ⟨f, FileOp.zoom_ok hrun, ⟨hf, hkind.trans h.kind, hcore ▸ h.width, h.blobs, h.consistent⟩⟩

/-- Storing a text's blob: empty text gets the pointer 0 and no blob, other text a pointer that
named no blob and now names its bytes. -/
theorem storeBlob_stores (hb : t.blobs.Stores d B) {s : String} (hroom : t.blobs.Room none (utf8Bytes s).length) :
    ∃ q b, storeBlob s (d, t) = .ok q (d, { t with blobs := b }) ∧ (q = 0 ↔ s = "") ∧ (q ≠ 0 → B q = none) ∧
      q < Nat.pow 256 8 ∧ b.Stores d (if q = 0 then B else Function.update B q (some (utf8Bytes s))) := by
  by_cases hs : s = ""
  · subst hs
    refine ⟨0, t.blobs, rfl, by simp, fun h => absurd rfl h, Nat.pos_of_neZero _, by simpa using hb⟩
  · rcases hb.add hroom with ⟨q, b, hrun, hq0, hBq, -, -, hb'⟩ | ⟨x, hid, -⟩
    · have hq : q ≠ 0 := Nat.pos_iff_ne_zero.mp hq0
      refine ⟨q, b, ?_, iff_of_false hq hs, fun _ => hBq, hb'.lt_of_isSome (by simp), by rwa [if_neg hq]⟩
      have hempty : s.isEmpty = false := by simpa using hs
      simp only [TextFile.storeBlob, hempty, Bool.false_eq_true, if_false]
      exact FileOp.zoom_ok hrun
    · cases hid

/-! ## Reading and writing texts -/

/-- Reading a row answers its text and keeps the invariant. -/
theorem Holds.get (h : t.Holds d T P B) (x : Nat) :
    ∃ t', TextFile.get x (d, t) = .ok (T x) (d, t') ∧ t'.Holds d T P B := by
  obtain ⟨f, hread, h₁⟩ := h.readPointer x
  cases hT : T x with
  | none =>
    refine ⟨_, ?_, h₁⟩
    unfold TextFile.get
    rw [FileOp.bind_ok hread, h.consistent.pointer_eq_none hT]
    rfl
  | some s =>
    obtain ⟨p, hp, hp0, hpB⟩ := h.consistent.text x s hT
    by_cases hz : p = 0
    · -- empty text has no blob
      refine ⟨_, ?_, h₁⟩
      unfold TextFile.get
      rw [FileOp.bind_ok hread, hp, hp0.mp hz]
      simp only [Option.map_some, pointerOf_pointer, hz, beq_self_eq_true, if_true]
      rfl
    · obtain ⟨b, hrun, -, hb⟩ := h₁.blobs.get (x := p) fun _ => by rw [hpB hz]; rfl
      have hblob : onBlobs (BlobFile.get p) (d, { t with pointers := f }) =
          .ok (B p) (d, { t with pointers := f, blobs := b }) := FileOp.zoom_ok hrun
      refine ⟨{ t with pointers := f, blobs := b }, ?_, ⟨h₁.pointers, h₁.kind, h₁.width, hb, h.consistent⟩⟩
      unfold TextFile.get
      rw [FileOp.bind_ok hread, hp]
      simp only [Option.map_some, pointerOf_pointer, beq_iff_eq, hz, if_false]
      rw [FileOp.bind_ok hblob, hpB hz]
      simp only [decodeUtf8_utf8Bytes]
      rfl

/-- Adding a text under a given id or a free one, with room for its blob and its row: it goes in
under an id that held no text, the one asked for if any; or the id asked for is 0 or holds a
text, and it is refused with its blob deleted again, so the file still holds what it held, with
the same pointer file. -/
theorem Holds.add (h : t.Holds d T P B) {s : String} {id? : Option Nat}
    (hroom : t.blobs.Room none (utf8Bytes s).length)
    (hroom' : id? = none → t.pointers.core.allocator.pool.free = [] →
      t.pointers.core.allocator.pool.latest + 1 < Nat.pow 256 8)
    (hlt : ∀ x, id? = some x → x < Nat.pow 256 8) :
    (∃ x t', TextFile.add s id? (d, t) = .ok x (d, t') ∧ 0 < x ∧ T x = none ∧ (id? = none ∨ id? = some x) ∧
        ∃ P' B', t'.Holds d (Function.update T x (some s)) P' B') ∨
      (∃ x t', id? = some x ∧ (x = 0 ∨ (T x).isSome) ∧ TextFile.add s id? (d, t) = .error (.idInUse x) (d, t') ∧
        t'.Holds d T P B ∧ t'.pointers = t.pointers) := by
  obtain ⟨q, b, hstore, hq, hfresh, hqlt, hb⟩ := storeBlob_stores h.blobs hroom
  have hkind : (pointer q).kind = t.pointers.kind := by rw [kind_pointer, h.kind]
  have hlen : (pointer q).encode.length ≤ ChunkSlot.payloadCapacity t.pointers.core.layout := by
    rw [length_encode_pointer]
    exact h.width
  rcases h.pointers.add_eq hkind (fits_pointer hqlt) hlen hroom' hlt with
    ⟨x, f, hrun, hx0, hPx, hid, hf, hkind', hlayout⟩ | ⟨x, hid, hx, hrun⟩
  · -- the pointer goes in, so the row holds the text
    have hTx : T x = none := by
      rw [← Option.not_isSome_iff_eq_none, ← h.consistent.live x, Option.not_isSome_iff_eq_none]
      simpa [pointerValues] using hPx
    refine .inl ⟨x, { t with blobs := b, pointers := f }, ?_, hx0, hTx, hid, Function.update P x (some q), _,
      ⟨?_, hkind'.trans h.kind, hlayout ▸ h.width, hb, h.consistent.insert hTx hq hfresh⟩⟩
    · unfold TextFile.add
      rw [FileOp.bind_ok hstore]
      exact FileOp.tryCatch_ok (FileOp.zoom_ok hrun)
    · rw [pointerValues_update]
      exact hf
  · -- the id is refused: the blob goes again, and the file holds what it held
    have hT : x = 0 ∨ (T x).isSome := by
      rw [← h.consistent.live x]
      simpa [pointerValues] using hx
    have hptr : onPointers (DataFile.add (pointer q) id?) (d, { t with blobs := b }) =
        .error (.idInUse x) (d, { t with blobs := b }) := FileOp.zoom_error hrun
    by_cases hz : q = 0
    · refine .inr ⟨x, { t with blobs := b }, hid, hT, ?_, ⟨h.pointers, h.kind, h.width, ?_, h.consistent⟩, rfl⟩
      · unfold TextFile.add
        rw [FileOp.bind_ok hstore, FileOp.tryCatch_error hptr]
        simp only [hz, bne_self_eq_false, Bool.false_eq_true, if_false]
        rfl
      · simpa [hz] using hb
    · rw [if_neg hz] at hb
      obtain ⟨b', hdel, -, hb'⟩ := hb.delete (x := q) fun _ => by simp
      have hdrop : (discard (onBlobs (BlobFile.delete q)) : TextOp PUnit) (d, { t with blobs := b }) =
          .ok () (d, { t with blobs := b' }) := FileOp.discard_ok (FileOp.zoom_ok hdel)
      refine .inr ⟨x, { t with blobs := b' }, hid, hT, ?_, ⟨h.pointers, h.kind, h.width, ?_, h.consistent⟩, rfl⟩
      · unfold TextFile.add
        rw [FileOp.bind_ok hstore, FileOp.tryCatch_error hptr]
        simp only [bne_iff_ne, ne_eq, hz, not_false_eq_true, if_true]
        rw [FileOp.bind_ok hdrop]
        rfl
      · have hBq : Function.update B q none = B := Function.update_eq_self_iff.mpr (hfresh hz).symm
        rwa [Function.update_idem, hBq] at hb'

/-- Pointing a row that holds a pointer at another keeps the pointer file holding the pointers. -/
theorem update_pointer {f : DataFile} (hf : f.Holds d (pointerValues P)) (hkind : f.kind = .int .u64)
    (hw : 8 ≤ ChunkSlot.payloadCapacity f.core.layout) {x p q : Nat} (hx : P x = some p) (hq : q < Nat.pow 256 8) :
    ∃ f', DataFile.update x (pointer q) (d, f) = .ok () (d, f') ∧
      f'.Holds d (pointerValues (Function.update P x (some q))) ∧ f'.kind = .int .u64 ∧
      8 ≤ ChunkSlot.payloadCapacity f'.core.layout := by
  have hlive : f.core.isAllocated x = true := (hf.allocated x).mpr (by simp [pointerValues, hx])
  obtain ⟨f', hrun, hf', hcore, hkind'⟩ := hf.update_live hlive (v := pointer q)
    (by rw [kind_pointer, hkind]) (fits_pointer hq) (by rw [length_encode_pointer]; exact hw)
  refine ⟨f', hrun, ?_, hkind'.trans hkind, hcore ▸ hw⟩
  rw [pointerValues_update]
  exact hf'

/-- Rewriting a row's text, with room for a new blob and an id that fits a pointer: the row holds
the new text, added if it held none; or the id is 0, which holds no text, and it is refused with
the file still holding what it held. -/
theorem Holds.update (h : t.Holds d T P B) {x : Nat} {s : String} (hx : x < Nat.pow 256 8)
    (hroom : t.blobs.Room none (utf8Bytes s).length) :
    (∃ t', TextFile.update x s (d, t) = .ok () (d, t') ∧ ∃ P' B', t'.Holds d (Function.update T x (some s)) P' B') ∨
      (x = 0 ∧ T x = none ∧ ∃ t', TextFile.update x s (d, t) = .error (.idInUse x) (d, t') ∧ t'.Holds d T P B) := by
  obtain ⟨f, hread, h₁⟩ := h.readPointer x
  cases hT : T x with
  | none =>
    -- a row without text is added
    have hadd : TextFile.update x s (d, t) =
        (discard (TextFile.add s (some x)) : TextOp PUnit) (d, { t with pointers := f }) := by
      unfold TextFile.update
      rw [FileOp.bind_ok hread, h.consistent.pointer_eq_none hT]
      rfl
    rcases h₁.add hroom (fun (hn : some x = none) => by cases hn) (fun y hy => by cases hy; exact hx) with
      ⟨y, t', hrun, -, -, hid, P', B', ht'⟩ | ⟨y, t', hid, hy, hrun, ht', -⟩
    · obtain rfl : y = x := by simpa [eq_comm] using hid
      exact .inl ⟨t', by rw [hadd]; exact FileOp.discard_ok hrun, P', B', ht'⟩
    · cases hid
      have hx0 : x = 0 := hy.resolve_right (by rw [hT]; decide)
      exact .inr ⟨hx0, rfl, t', by rw [hadd]; exact FileOp.discard_error hrun, ht'⟩
  | some s₀ =>
    obtain ⟨p, hp, hp0, hpB⟩ := h.consistent.text x s₀ hT
    -- the four cases of an empty or present old text and an empty or present new one
    by_cases hz : p = 0 <;> by_cases hs : s = ""
    · -- empty text stays empty
      have hT' : Function.update T x (some s) = T := by
        rw [hs, ← hp0.mp hz]
        exact Function.update_eq_self_iff.mpr hT.symm
      refine .inl ⟨_, ?_, P, B, hT' ▸ h₁⟩
      unfold TextFile.update
      rw [FileOp.bind_ok hread, hp]
      simp only [Option.map_some, pointerOf_pointer, hz, beq_self_eq_true, if_true, String.isEmpty_iff.mpr hs]
      rfl
    · -- text appears: a new blob, and the row points at it
      obtain ⟨q, b, hstore, hq, hfresh, hqlt, hb⟩ := storeBlob_stores h₁.blobs hroom
      have hq0 : q ≠ 0 := fun h => hs (hq.mp h)
      obtain ⟨f', hset, hf', hkind', hwidth'⟩ := update_pointer h₁.pointers h₁.kind h₁.width hp hqlt
      have hc := h.consistent.replace hp hq (by rw [if_pos hz]; exact hfresh)
      rw [if_pos hz, if_neg hq0] at hc
      rw [if_neg hq0] at hb
      refine .inl ⟨{ t with pointers := f', blobs := b }, ?_, _, _, ⟨hf', hkind', hwidth', hb, hc⟩⟩
      have hset' : onPointers (DataFile.update x (pointer q)) (d, { t with pointers := f, blobs := b }) =
          .ok () (d, { t with pointers := f', blobs := b }) := FileOp.zoom_ok hset
      unfold TextFile.update
      rw [FileOp.bind_ok hread, hp]
      simp only [Option.map_some, pointerOf_pointer, hz, beq_self_eq_true, if_true,
        (show s.isEmpty = false by simpa using hs), Bool.false_eq_true, if_false]
      rw [FileOp.bind_ok hstore, hset']
    · -- text disappears: the blob goes, and the row points at 0
      obtain ⟨b, hdel, -, hb⟩ := h₁.blobs.delete (x := p) fun _ => by rw [hpB hz]; rfl
      obtain ⟨f', hset, hf', hkind', hwidth'⟩ := update_pointer h₁.pointers h₁.kind h₁.width hp
        (Nat.pos_of_neZero (Nat.pow 256 8))
      have hc := h.consistent.replace (q := 0) hp (iff_of_true rfl hs) (fun h => absurd rfl h)
      rw [if_pos rfl, if_neg hz] at hc
      refine .inl ⟨{ t with pointers := f', blobs := b }, ?_, _, _, ⟨hf', hkind', hwidth', hb, hc⟩⟩
      have hdrop : (discard (onBlobs (BlobFile.delete p)) : TextOp PUnit) (d, { t with pointers := f }) =
          .ok () (d, { t with pointers := f, blobs := b }) := FileOp.discard_ok (FileOp.zoom_ok hdel)
      have hset' : onPointers (DataFile.update x (pointer 0)) (d, { t with pointers := f, blobs := b }) =
          .ok () (d, { t with pointers := f', blobs := b }) := FileOp.zoom_ok hset
      unfold TextFile.update
      rw [FileOp.bind_ok hread, hp]
      simp only [Option.map_some, pointerOf_pointer, beq_iff_eq, hz, if_false, String.isEmpty_iff.mpr hs, if_true]
      rw [FileOp.bind_ok hdrop, hset']
    · -- text changes: the blob is written over in place
      have hBp : (B p).isSome := by rw [hpB hz]; rfl
      have hroom' : t.blobs.Room (some p) (utf8Bytes s).length := h₁.blobs.room_some hBp hroom
      rcases h₁.blobs.update (fun _ => hBp) hroom' with
        ⟨b, hupd, -, hb⟩ | ⟨hnone, -⟩
      · have hc := h.consistent.replace (q := p) hp (iff_of_false hz hs)
          (fun _ => by rw [if_neg hz, Function.update_self])
        have hPx : Function.update P x (some p) = P := Function.update_eq_self_iff.mpr hp.symm
        rw [if_neg hz, if_neg hz, Function.update_idem, hPx] at hc
        refine .inl ⟨{ t with pointers := f, blobs := b }, ?_, P, _, ⟨h₁.pointers, h₁.kind, h₁.width, hb, hc⟩⟩
        unfold TextFile.update
        rw [FileOp.bind_ok hread, hp]
        simp only [Option.map_some, pointerOf_pointer, beq_iff_eq, hz, if_false,
          (show s.isEmpty = false by simpa using hs), Bool.false_eq_true]
        exact FileOp.zoom_ok hupd
      · rw [hnone] at hBp
        cases hBp

/-- Deleting a row takes its text out, and its blob with it, answering whether it held text. -/
theorem Holds.delete (h : t.Holds d T P B) (x : Nat) :
    ∃ t', TextFile.delete x (d, t) = .ok (T x).isSome (d, t') ∧
      ∃ P' B', t'.Holds d (Function.update T x none) P' B' := by
  obtain ⟨f, hread, h₁⟩ := h.readPointer x
  cases hT : T x with
  | none =>
    have hT' : Function.update T x none = T := Function.update_eq_self_iff.mpr hT.symm
    refine ⟨_, ?_, P, B, hT' ▸ h₁⟩
    unfold TextFile.delete
    rw [FileOp.bind_ok hread, h.consistent.pointer_eq_none hT]
    rfl
  | some s =>
    obtain ⟨p, hp, -, hpB⟩ := h.consistent.text x s hT
    -- the pointer goes after the blob, whatever the blob file then holds
    have hpointer : ∀ b : BlobFile, ∃ f', onPointers (DataFile.delete x) (d, { t with pointers := f, blobs := b }) =
        .ok true (d, { t with pointers := f', blobs := b }) ∧
        f'.Holds d (pointerValues (Function.update P x none)) ∧ f'.kind = .int .u64 ∧
        8 ≤ ChunkSlot.payloadCapacity f'.core.layout := fun b => by
      obtain ⟨f', hdel, hf', hcore, hkind'⟩ := h₁.pointers.delete x
      have hlive : (pointerValues P x).isSome = true := by simp [pointerValues, hp]
      refine ⟨f', ?_, by rw [pointerValues_update]; exact hf', hkind'.trans h₁.kind, by rw [hcore]; exact h₁.width⟩
      rw [← hlive]
      exact FileOp.zoom_ok hdel
    have hc := h.consistent.erase hp
    by_cases hz : p = 0
    · obtain ⟨f', hdel, hf', hkind', hwidth'⟩ := hpointer t.blobs
      rw [if_pos hz] at hc
      refine ⟨{ t with pointers := f' }, ?_, _, _, ⟨hf', hkind', hwidth', h.blobs, hc⟩⟩
      unfold TextFile.delete
      rw [FileOp.bind_ok hread, hp]
      simp only [Option.map_some, pointerOf_pointer, hz, beq_self_eq_true, if_true, pure_bind]
      rw [FileOp.bind_ok hdel]
      rfl
    · obtain ⟨b, hbdel, -, hb⟩ := h₁.blobs.delete (x := p) fun _ => by rw [hpB hz]; rfl
      rw [hpB hz] at hbdel
      have hbdel' : onBlobs (BlobFile.delete p) (d, { t with pointers := f }) =
          .ok true (d, { t with pointers := f, blobs := b }) := FileOp.zoom_ok hbdel
      obtain ⟨f', hdel, hf', hkind', hwidth'⟩ := hpointer b
      rw [if_neg hz] at hc
      refine ⟨{ t with pointers := f', blobs := b }, ?_, _, _, ⟨hf', hkind', hwidth', hb, hc⟩⟩
      unfold TextFile.delete
      rw [FileOp.bind_ok hread, hp]
      simp only [Option.map_some, pointerOf_pointer, beq_iff_eq, hz, if_false]
      rw [FileOp.bind_ok hbdel', FileOp.bind_ok hdel]
      rfl

/-- A text file opened on two empty stores holds no text. -/
theorem holds_open_new {pointers blobs : StoreRef} {pointerLabel blobLabel : String} {capacity : Nat}
    (hcap : chunkHeader < capacity) (hcap' : capacity < Nat.pow 256 4)
    (hp : pointers.store < d.stores.size) (hb : blobs.store < d.stores.size)
    (hpe : d.size pointers.store = 0) (hbe : d.size blobs.store = 0)
    (hopen : TextFile.open d pointers blobs pointerLabel blobLabel capacity = .ok t) :
    t.Holds d (fun _ => none) (fun _ => none) (fun _ => none) := by
  unfold TextFile.open at hopen
  cases hpf : DataFile.open d pointers pointerLabel (.int .u64) pointerCapacity with
  | error e =>
    rw [hpf] at hopen
    cases hopen
  | ok pf =>
    cases hbf : BlobFile.open d blobs blobLabel capacity with
    | error e =>
      simp only [hpf, hbf, bind, Except.bind] at hopen
      cases hopen
    | ok bf =>
      simp only [hpf, hbf, bind, Except.bind, pure, Except.pure, Except.ok.injEq] at hopen
      subst hopen
      obtain ⟨hpts, hkind, hpay⟩ := DataFile.holds_open_new (by decide) (by decide) hp hpe hpf
      refine ⟨hpts, hkind, by rw [hpay]; decide, (BlobFile.stores_open hcap hcap' hb hbe hbf).1, consistent_empty⟩

end TextFile

/-! ## Runs -/

/-- A request to a text file. -/
inductive TextEvent where
  | add (s : String) (id? : Option Nat)
  | get (id : Nat)
  | update (id : Nat) (s : String)
  | delete (id : Nat)
deriving DecidableEq, Repr

/-- What a text file answers. -/
inductive TextAnswer where
  | id (x : Nat)
  | text (s : Option String)
  | done
  | deleted (b : Bool)
deriving DecidableEq, Repr

namespace TextEvent

/-- Runs an event on a text file and its store. -/
def onFile : TextEvent → Disk × TextFile → Except FileError TextAnswer × (Disk × TextFile)
  | .add s id?, st =>
    match TextFile.add s id? st with
    | .ok x st' => (.ok (.id x), st')
    | .error e st' => (.error e, st')
  | .get x, st =>
    match TextFile.get x st with
    | .ok s st' => (.ok (.text s), st')
    | .error e st' => (.error e, st')
  | .update x s, st =>
    match TextFile.update x s st with
    | .ok _ st' => (.ok .done, st')
    | .error e st' => (.error e, st')
  | .delete x, st =>
    match TextFile.delete x st with
    | .ok b st' => (.ok (.deleted b), st')
    | .error e st' => (.error e, st')

/-- The texts after an event, as its answer tells: an add puts the text under the id it answers,
an update under its id, a delete takes the id out; a refused event changes nothing. -/
def apply : TextEvent → Except FileError TextAnswer → (Nat → Option String) → Nat → Option String
  | .add s _, .ok (.id x), T => Function.update T x (some s)
  | .update x s, .ok _, T => Function.update T x (some s)
  | .delete x, .ok _, T => Function.update T x none
  | _, _, T => T

/-- The answers a map of texts allows: an add puts the text under an id holding none, the one
asked for if any, or refuses an id asked for that is 0 or holds text; a read answers the text at
the id; an update succeeds, or refuses the id 0; a delete answers whether the id held text. -/
def Answers : TextEvent → (Nat → Option String) → Except FileError TextAnswer → Prop
  | .add _ id?, T, .ok (.id x) => 0 < x ∧ T x = none ∧ (id? = none ∨ id? = some x)
  | .add _ id?, T, .error e => ∃ x, id? = some x ∧ (x = 0 ∨ (T x).isSome) ∧ e = .idInUse x
  | .get x, T, .ok (.text s) => s = T x
  | .update _ _, _, .ok .done => True
  | .update x _, T, .error e => x = 0 ∧ T x = none ∧ e = .idInUse x
  | .delete x, T, .ok (.deleted b) => b = (T x).isSome
  | _, _, _ => False

/-- What a program may pass: each text written has room for its blob, and each id it names, or
the next id it takes, fits a link. -/
def Allowed (t : TextFile) : TextEvent → Prop
  | .add s none => t.blobs.Room none (utf8Bytes s).length ∧
      (t.pointers.core.allocator.pool.free = [] → t.pointers.core.allocator.pool.latest + 1 < Nat.pow 256 8)
  | .add s (some x) => t.blobs.Room none (utf8Bytes s).length ∧ x < Nat.pow 256 8
  | .update x s => t.blobs.Room none (utf8Bytes s).length ∧ x < Nat.pow 256 8
  | .get _ => True
  | .delete _ => True

instance (t : TextFile) : (e : TextEvent) → Decidable (e.Allowed t)
  | .add _ none => inferInstanceAs (Decidable (_ ∧ (_ → _)))
  | .add _ (some _) => inferInstanceAs (Decidable (_ ∧ _))
  | .update _ _ => inferInstanceAs (Decidable (_ ∧ _))
  | .get _ => inferInstanceAs (Decidable True)
  | .delete _ => inferInstanceAs (Decidable True)

/-- Runs events on a file and its store, gathering the answers. -/
def runFile : List TextEvent → Disk × TextFile → List (Except FileError TextAnswer) × (Disk × TextFile)
  | [], st => ([], st)
  | e :: es, st => ((e.onFile st).1 :: (runFile es (e.onFile st).2).1, (runFile es (e.onFile st).2).2)

/-- The texts after a run, as its answers tell. -/
def runMap : List TextEvent → List (Except FileError TextAnswer) → (Nat → Option String) → Nat → Option String
  | e :: es, a :: as, T => runMap es as (e.apply a T)
  | _, _, T => T

/-- Every answer of a run is one the map of texts allows, the map following the answers. -/
def AnswersRun : (Nat → Option String) → List TextEvent → List (Except FileError TextAnswer) → Prop
  | _, [], [] => True
  | T, e :: es, a :: as => e.Answers T a ∧ AnswersRun (e.apply a T) es as
  | _, _, _ => False

/-- Every event of a run is allowed in the file it meets. -/
def AllowedRun : Disk × TextFile → List TextEvent → Prop
  | _, [] => True
  | st, e :: es => e.Allowed st.2 ∧ AllowedRun (e.onFile st).2 es

/-- Whether a run is allowed, by following it on the file. -/
def decAllowedRun : (st : Disk × TextFile) → (es : List TextEvent) → Decidable (AllowedRun st es)
  | _, [] => inferInstanceAs (Decidable True)
  | st, e :: es =>
    have := decAllowedRun (e.onFile st).2 es
    inferInstanceAs (Decidable (_ ∧ _))

instance (st : Disk × TextFile) (es : List TextEvent) : Decidable (AllowedRun st es) :=
  decAllowedRun st es

variable {d : Disk} {t : TextFile} {T : Nat → Option String} {P : Nat → Option Nat}
  {B : Nat → Option (List UInt8)}

/-- The two ways of naming the id of an added text ask for different room. -/
theorem allowed_add {s : String} {id? : Option Nat} (he : (TextEvent.add s id?).Allowed t) :
    t.blobs.Room none (utf8Bytes s).length ∧
      (id? = none → t.pointers.core.allocator.pool.free = [] →
        t.pointers.core.allocator.pool.latest + 1 < Nat.pow 256 8) ∧ ∀ x, id? = some x → x < Nat.pow 256 8 := by
  cases id? with
  | none => exact ⟨he.1, fun _ => he.2, fun _ hx => (by cases hx)⟩
  | some y =>
    refine ⟨he.1, fun hy => (by cases hy), fun x hx => ?_⟩
    rw [← Option.some.inj hx]
    exact he.2

/-- One allowed event answers as the map of texts allows, leaves the store as it is, and keeps
the invariant with the map its answer gives. -/
theorem step_holds (h : t.Holds d T P B) {e : TextEvent} (he : e.Allowed t) :
    e.Answers T (e.onFile (d, t)).1 ∧ (e.onFile (d, t)).2 = (d, (e.onFile (d, t)).2.2) ∧
      ∃ P' B', (e.onFile (d, t)).2.2.Holds d (e.apply (e.onFile (d, t)).1 T) P' B' := by
  cases e with
  | add s id? =>
    obtain ⟨hroom, hroom', hlt⟩ := allowed_add he
    rcases h.add hroom hroom' hlt with
      ⟨x, t', hrun, hx0, hT, hid, P', B', ht'⟩ | ⟨x, t', hid, hx, hrun, ht', -⟩
    · simp only [onFile, hrun]
      exact ⟨⟨hx0, hT, hid⟩, trivial, P', B', ht'⟩
    · simp only [onFile, hrun]
      exact ⟨⟨x, hid, hx, rfl⟩, trivial, P, B, ht'⟩
  | get x =>
    obtain ⟨t', hrun, ht'⟩ := h.get x
    simp only [onFile, hrun]
    exact ⟨rfl, trivial, P, B, ht'⟩
  | update x s =>
    rcases h.update he.2 he.1 with ⟨t', hrun, P', B', ht'⟩ | ⟨hx0, hT, t', hrun, ht'⟩
    · simp only [onFile, hrun]
      exact ⟨trivial, trivial, P', B', ht'⟩
    · simp only [onFile, hrun]
      exact ⟨⟨hx0, hT, rfl⟩, trivial, P, B, ht'⟩
  | delete x =>
    obtain ⟨t', hrun, P', B', ht'⟩ := h.delete x
    simp only [onFile, hrun]
    exact ⟨rfl, trivial, P', B', ht'⟩

/-- An allowed run answers as the map of texts allows and keeps the invariant, by induction on
the run from `step_holds`. -/
theorem runFile_holds : ∀ (es : List TextEvent) {t : TextFile} {T : Nat → Option String} {P : Nat → Option Nat}
    {B : Nat → Option (List UInt8)}, t.Holds d T P B → AllowedRun (d, t) es →
    AnswersRun T es (runFile es (d, t)).1 ∧
      ∃ P' B', (runFile es (d, t)).2.2.Holds d (runMap es (runFile es (d, t)).1 T) P' B'
  | [], _, _, _, _, h, _ => ⟨trivial, _, _, h⟩
  | e :: es, _, _, _, _, h, ⟨he, hes⟩ => by
    obtain ⟨hans, hst, P', B', h'⟩ := step_holds h he
    rw [hst] at hes
    obtain ⟨hans', P'', B'', h''⟩ := runFile_holds es h' hes
    simp only [runFile, runMap, AnswersRun]
    rw [hst]
    exact ⟨⟨hans, hans'⟩, P'', B'', h''⟩

/-- From a new text file on two empty stores, every run of adds, reads, rewrites and deletes that
leaves room for its blobs and its ids answers as a map of texts: a read gives the text last stored
at the id, empty text included, and none for an id never stored or deleted. All along the pointers
and the blobs agree with the texts: a row's pointer is 0 exactly when its text is empty, and
otherwise names the blob of its UTF-8 bytes; no two rows share a nonzero pointer; and the blobs
are exactly at the rows' nonzero pointers, none left behind by a refused add, a text cleared or a
row deleted. -/
theorem runFile_keeps_texts {pointers blobs : StoreRef} {pointerLabel blobLabel : String} {capacity : Nat}
    (hcap : chunkHeader < capacity) (hcap' : capacity < Nat.pow 256 4)
    (hp : pointers.store < d.stores.size) (hb : blobs.store < d.stores.size)
    (hpe : d.size pointers.store = 0) (hbe : d.size blobs.store = 0)
    (hopen : TextFile.open d pointers blobs pointerLabel blobLabel capacity = .ok t)
    (es : List TextEvent) (hes : AllowedRun (d, t) es) :
    AnswersRun (fun _ => none) es (runFile es (d, t)).1 ∧
      ∃ P B, (runFile es (d, t)).2.2.Holds d (runMap es (runFile es (d, t)).1 fun _ => none) P B :=
  runFile_holds es (TextFile.holds_open_new hcap hcap' hp hb hpe hbe hopen) hes

/-- A text added to a new file, refused a second time under its id, cleared, read back empty and
deleted. -/
theorem runFile_keeps_texts_of_add_clear :
    let d : Disk := { stores := #[ByteArray.empty, ByteArray.empty] }
    let t : TextFile := ⟨⟨⟨"pointers", ⟨0, none⟩, ⟨dataHeader, pointerCapacity⟩, Cell.create 8 4 pointerCapacity,
      Allocator.create ⟨dataHeader, pointerCapacity⟩, true, false⟩, .int .u64, ∅⟩,
      ⟨⟨"blobs", ⟨1, none⟩, ⟨blobHeader, 20⟩, Cell.create 8 4 20, Allocator.create ⟨blobHeader, 20⟩, true, false⟩, ∅⟩⟩
    let es : List TextEvent := [.add "hi" none, .add "" (some 1), .update 1 "", .get 1, .delete 1]
    let r := runFile es (d, t)
    AnswersRun (fun _ => none) es r.1 ∧ ∃ P B, r.2.2.Holds d (runMap es r.1 fun _ => none) P B :=
  @runFile_keeps_texts _ _ ⟨0, none⟩ ⟨1, none⟩ "pointers" "blobs" 20 (by decide) (by decide) (by decide) (by decide)
    (by decide) (by decide) rfl _ (by decide +kernel)

end TextEvent

end ColumnDb.Blob
