import Mathlib
import ColumnDb.Proofs.ColumnFrame
import ColumnDb.Column.Store

/-!
# What a column holds

The model of a column (`Column.ColumnModel`) is the list model of its tree file or the model of
its text file. A program sees of it the value of each row (`ColumnModel.value`) and which ids are
live, those its pool of row ids has handed out (`ColumnModel.Live`). A text row's value is read
through its pointer (`TextModel.text`): empty text for the pointer 0, otherwise the text its blob
decodes to.

Under the invariant that a file standing for the model keeps (`ColumnModel.Sound`: distinct row
ids, exactly the live ones, and for text, pointers linked to blobs that hold UTF-8), the live rows
are those with a value (`Sound.live_iff`), and each operation that answers changes the values as
its name says: adding or setting a row puts its value at its id, deleting a row takes it out, and
every other id keeps its value (`Sound.value_insert`, `Sound.value_update`, `Sound.value_delete`).
For trees, an add or an update refused leaves the model as it was (`RowModel.add_of_error`,
`RowModel.update_of_error`). Every text operation writes only the bytes of texts to its blobs
(`TextModel.utf8_add`, `utf8_update`, `utf8_delete`).

A column's store stands for its model (`ColumnStore.Tracks`) when its tree file stands for the list
model or its text file for the text model. Then the store is sound for it, answers `contains` by
liveness, and runs an insert, an update or a delete with room for it as the model does, on the
same stores (`Tracks.insert`, `Tracks.update`, `Tracks.delete`). A flush writes only the column's
own stores, and a store keeps standing for its model whatever is written to other stores
(`Tracks.flush`, `Tracks.touches`).
-/

set_option autoImplicit false

namespace ColumnDb

/-- A list of pairs looks a key up in its first pair, or else in the rest. -/
theorem lookup_cons_ite {α β : Type} [DecidableEq α] (k y : α) (w : β) (L : List (α × β)) :
    ((k, w) :: L).lookup y = if y = k then some w else L.lookup y := by
  by_cases h : y = k
  · rw [List.lookup_cons, h, beq_self_eq_true, if_pos rfl]
  · rw [List.lookup_cons, beq_false_of_ne h, if_neg h]

end ColumnDb

namespace ColumnDb.Tree

/-! ## Rows looked up by id -/

/-- Rows with distinct ids are looked up alike in any order. -/
theorem lookup_perm {L₁ L₂ : List (Nat × Value)} (h : L₁.Perm L₂) (hn : (L₁.map Prod.fst).Nodup) (y : Nat) :
    L₁.lookup y = L₂.lookup y := by
  induction h with
  | nil => rfl
  | cons a _ ih =>
    obtain ⟨k, w⟩ := a
    rw [List.map_cons, List.nodup_cons] at hn
    rw [lookup_cons_ite, lookup_cons_ite, ih hn.2]
  | swap a b l =>
    -- two rows with different ids trade places
    obtain ⟨k₁, w₁⟩ := a
    obtain ⟨k₂, w₂⟩ := b
    simp only [List.map_cons, List.nodup_cons, List.mem_cons, not_or] at hn
    rw [lookup_cons_ite, lookup_cons_ite, lookup_cons_ite, lookup_cons_ite]
    by_cases h₁ : y = k₁ <;> by_cases h₂ : y = k₂
    · exact absurd (h₂.symm.trans h₁) hn.1.1
    · rw [if_neg h₂, if_pos h₁, if_pos h₁]
    · rw [if_pos h₂, if_neg h₁, if_pos h₂]
    · rw [if_neg h₂, if_neg h₁, if_neg h₁, if_neg h₂]
  | trans h₁ _ ih₁ ih₂ => exact (ih₁ hn).trans (ih₂ ((h₁.map Prod.fst).nodup_iff.mp hn))

theorem lookup_filter_ne (x y : Nat) (R : List (Nat × Value)) :
    (R.filter (·.1 != x)).lookup y = if y = x then none else R.lookup y := by
  induction R with
  | nil => simp
  | cons r R ih =>
    obtain ⟨k, w⟩ := r
    by_cases hk : k = x
    · subst hk
      simp only [List.filter_cons, bne_self_eq_false, Bool.false_eq_true, if_false, ih, lookup_cons_ite]
      split_ifs <;> rfl
    · simp only [List.filter_cons, bne_iff_ne, ne_eq, hk, not_false_eq_true, if_true, lookup_cons_ite, ih]
      split_ifs with h₁ h₂ <;> first | rfl | exact absurd (h₁.symm.trans h₂) hk

/-- A row put among rows with other ids is found at its id, and every other id as before. -/
theorem lookup_insertRow {R : List (Nat × Value)} (hR : (R.map Prod.fst).Nodup) {x : Nat} (hx : x ∉ R.map Prod.fst)
    (v : Value) (y : Nat) : (insertRow (x, v) R).lookup y = if y = x then some v else R.lookup y := by
  have hn : (((x, v) :: R).map Prod.fst).Nodup := List.nodup_cons.mpr ⟨hx, hR⟩
  rw [insertRow, ← lookup_perm (perm_insertAfterLast _ _ R).symm hn, lookup_cons_ite]

theorem mem_fst_iff (R : List (Nat × Value)) (x : Nat) : x ∈ R.map Prod.fst ↔ (R.lookup x).isSome := by
  induction R with
  | nil => simp
  | cons r R ih =>
    obtain ⟨k, w⟩ := r
    rw [lookup_cons_ite, List.map_cons, List.mem_cons, ih]
    by_cases h : x = k <;> simp [h]

theorem any_fst_eq (R : List (Nat × Value)) (x : Nat) : R.any (·.1 == x) = (R.lookup x).isSome := by
  rw [Bool.eq_iff_iff, ← mem_fst_iff, List.any_eq_true, List.mem_map]
  simp

namespace RowModel

/-- What a tree file standing for the model keeps of it: distinct row ids, exactly the ids its pool
has handed out, and a valid pool. -/
structure Sound (m : RowModel) : Prop where
  nodup : (m.rows.map Prod.fst).Nodup
  allocated : ∀ x, m.pool.Allocated x ↔ x ∈ m.rows.map Prod.fst
  valid : m.pool.Valid

variable {m : RowModel} {cap : Nat}

theorem Sound.live_iff (h : m.Sound) (x : Nat) : m.pool.Allocated x ↔ (m.rows.lookup x).isSome :=
  (h.allocated x).trans (mem_fst_iff _ x)

theorem add_tooLarge {v : Value} (hlen : cap < v.encode.length) (id? : Option Nat) :
    m.add cap v id? = (.error (.slot (.tooLarge v.encode.length cap)), m) := by
  simp only [add, if_pos hlen]

theorem add_none {v : Value} (hlen : v.encode.length ≤ cap) :
    m.add cap v none = (.ok m.pool.next.1, ⟨m.pool.next.2, insertRow (m.pool.next.1, v) m.rows⟩) := by
  simp only [add, if_neg (Nat.not_lt.mpr hlen)]

/-- A new row takes an id at most one past the pool's latest. -/
theorem add_none_le (hv : m.pool.Valid) {v : Value} {x : Nat} (hx : (m.add cap v none).1 = .ok x) :
    x ≤ m.pool.latest + 1 := by
  by_cases hlen : cap < v.encode.length
  · rw [add_tooLarge hlen] at hx
    cases hx
  · rw [add_none (Nat.not_lt.mp hlen)] at hx
    cases hx
    calc m.pool.next.1 ≤ m.pool.next.2.latest := hv.next.2.2.2.2.1
      _ ≤ m.pool.latest + 1 := Slot.IdPool.latest_next_le m.pool

theorem add_claimed {v : Value} (hlen : v.encode.length ≤ cap) {y : Nat} {p : Slot.IdPool} (hc : m.pool.claim y = some p) :
    m.add cap v (some y) = (.ok y, ⟨p, insertRow (y, v) m.rows⟩) := by
  simp only [add, if_neg (Nat.not_lt.mpr hlen), hc]

theorem add_taken {v : Value} (hlen : v.encode.length ≤ cap) {y : Nat} (hc : m.pool.claim y = none) :
    m.add cap v (some y) = (.error (.idInUse y), m) := by
  simp only [add, if_neg (Nat.not_lt.mpr hlen), hc]

/-- An add that answers an id puts the value there, under an id that held no row. -/
theorem lookup_add (h : m.Sound) {v : Value} {id? : Option Nat} {x : Nat} (hx : (m.add cap v id?).1 = .ok x) :
    (fun y => (m.add cap v id?).2.rows.lookup y) = Function.update (fun y => m.rows.lookup y) x (some v) := by
  by_cases hlen : cap < v.encode.length
  · rw [add_tooLarge hlen] at hx
    cases hx
  have hlen' := Nat.le_of_not_lt hlen
  -- the id handed out or claimed was not allocated, so no row had it
  cases id? with
  | none =>
    rw [add_none hlen'] at hx ⊢
    cases hx
    have hfresh : m.pool.next.1 ∉ m.rows.map Prod.fst := fun hm => h.valid.next.2.2.1 ((h.allocated _).mpr hm)
    funext y
    rw [lookup_insertRow h.nodup hfresh, Function.update_apply]
  | some y₀ =>
    cases hc : m.pool.claim y₀ with
    | none =>
      rw [add_taken hlen' hc] at hx
      cases hx
    | some p =>
      rw [add_claimed hlen' hc] at hx ⊢
      cases hx
      have hfree : x ∉ m.rows.map Prod.fst := fun hm =>
        (Option.some_ne_none p) (hc.symm.trans ((Slot.IdPool.claim_eq_none x).mpr (.inr ((h.allocated x).mpr hm))))
      funext y
      rw [lookup_insertRow h.nodup hfree, Function.update_apply]

/-- An add refused leaves the model as it was. -/
theorem add_of_error {v : Value} {id? : Option Nat} {e : FileError} (he : (m.add cap v id?).1 = .error e) :
    (m.add cap v id?).2 = m := by
  by_cases hlen : cap < v.encode.length
  · rw [add_tooLarge hlen]
  have hlen' := Nat.le_of_not_lt hlen
  cases id? with
  | none =>
    rw [add_none hlen'] at he
    cases he
  | some y =>
    cases hc : m.pool.claim y with
    | none => rw [add_taken hlen' hc]
    | some p =>
      rw [add_claimed hlen' hc] at he
      cases he

/-- Setting a row that answers puts the value at its id. -/
theorem lookup_update (h : m.Sound) {x : Nat} {v : Value} (hx : (m.update cap x v).1 = .ok ()) :
    (fun y => (m.update cap x v).2.rows.lookup y) = Function.update (fun y => m.rows.lookup y) x (some v) := by
  unfold update at hx ⊢
  by_cases ha : m.pool.Allocated x
  · rw [if_pos ha] at hx ⊢
    by_cases hlen : cap < v.encode.length
    · rw [if_pos hlen] at hx
      cases hx
    · rw [if_neg hlen]
      -- the row is taken out, then put back with its new value
      have hn : ((m.rows.filter (·.1 != x)).map Prod.fst).Nodup := h.nodup.sublist (List.filter_sublist.map _)
      have hx' : x ∉ (m.rows.filter (·.1 != x)).map Prod.fst := by simp
      funext y
      rw [lookup_insertRow hn hx', lookup_filter_ne, Function.update_apply]
      split_ifs <;> rfl
  · rw [if_neg ha] at hx ⊢
    cases hadd : (m.add cap v (some x)).1 with
    | error e =>
      rw [hadd] at hx
      cases hx
    | ok y =>
      -- an id no row has is added under itself
      have hy : y = x := by
        by_cases hlen : cap < v.encode.length
        · rw [add_tooLarge hlen] at hadd
          cases hadd
        cases hc : m.pool.claim x with
        | none =>
          rw [add_taken (Nat.le_of_not_lt hlen) hc] at hadd
          cases hadd
        | some p =>
          rw [add_claimed (Nat.le_of_not_lt hlen) hc] at hadd
          cases hadd
          rfl
      subst hy
      exact lookup_add h hadd

/-- Setting a row refused leaves the model as it was. -/
theorem update_of_error {x : Nat} {v : Value} {e : FileError} (he : (m.update cap x v).1 = .error e) :
    (m.update cap x v).2 = m := by
  unfold update at he ⊢
  by_cases ha : m.pool.Allocated x
  · rw [if_pos ha] at he ⊢
    split_ifs at he ⊢
    rfl
  · rw [if_neg ha] at he ⊢
    cases hadd : (m.add cap v (some x)).1 with
    | ok y =>
      rw [hadd] at he
      cases he
    | error e' => exact add_of_error hadd

theorem lookup_delete (x : Nat) : (fun y => (m.delete x).2.rows.lookup y) = Function.update (fun y => m.rows.lookup y) x none := by
  funext y
  simp only [delete, lookup_filter_ne, Function.update_apply]

end RowModel

end ColumnDb.Tree

namespace ColumnDb.Data.DataModel

/-- An add under an id asked for answers that id. -/
theorem eq_of_add_some {m : DataModel} {cap : Nat} {v : Value} {x y : Nat} (h : (m.add cap v (some x)).1 = .ok y) :
    y = x := by
  unfold add at h
  split_ifs at h
  cases hc : m.pool.claim x with
  | none =>
    simp only [Slot.IdPool.take, hc, Option.map_none] at h
    cases h
  | some q =>
    simp only [Slot.IdPool.take, hc, Option.map_some, Except.ok.injEq] at h
    exact h.symm

end ColumnDb.Data.DataModel

namespace ColumnDb.Blob

open ColumnDb.Slot ColumnDb.Data ColumnDb.Text
open TextFile (pointer pointerOf pointerOf_pointer)

namespace TextModel

/-! ## The text of a row -/

/-- The text a pointer reads among the blobs `B`: empty text for the pointer 0, otherwise the text
its blob decodes to. -/
def readText (B : Nat → Option (List UInt8)) (v : Value) : Option String :=
  if pointerOf v = 0 then some "" else (B (pointerOf v)).bind fun bs => (decodeUtf8 bs).toOption

/-- The text of a row, read through its pointer. -/
def text (m : TextModel) (x : Nat) : Option String := (m.pointers.vals x).bind (readText m.blobs.blobs)

/-- Every blob holds the bytes of a text. -/
def Utf8 (B : Nat → Option (List UInt8)) : Prop := ∀ q bs, B q = some bs → ∃ s, bs = utf8Bytes s

/-- What a text file standing for the model keeps of it: pointers linked to blobs that hold text,
live rows exactly those with a pointer, blobs only under allocated ids, and valid pools. -/
structure Sound (m : TextModel) : Prop where
  linked : Linked m.pointers.vals m.blobs.blobs
  utf8 : Utf8 m.blobs.blobs
  live : ∀ x, m.pointers.pool.Allocated x ↔ (m.pointers.vals x).isSome
  blob_live : ∀ q, (m.blobs.blobs q).isSome → m.blobs.pool.Allocated q
  pointers_valid : m.pointers.pool.Valid
  blobs_valid : m.blobs.pool.Valid

variable {m : TextModel} {p : Nat}

/-! ## Blobs that hold text -/

namespace Utf8

variable {B : Nat → Option (List UInt8)}

theorem write (h : Utf8 B) (q : Nat) (s : String) : Utf8 (Function.update B q (some (utf8Bytes s))) := by
  intro r bs hr
  by_cases hrq : r = q
  · subst hrq
    rw [Function.update_self] at hr
    cases hr
    exact ⟨s, rfl⟩
  · rw [Function.update_of_ne hrq] at hr
    exact h r bs hr

theorem erase (h : Utf8 B) (q : Nat) : Utf8 (Function.update B q none) := by
  intro r bs hr
  by_cases hrq : r = q
  · subst hrq
    rw [Function.update_self] at hr
    cases hr
  · rw [Function.update_of_ne hrq] at hr
    exact h r bs hr

end Utf8

theorem utf8_blobDelete {b : BlobModel} (h : Utf8 b.blobs) (q : Nat) : Utf8 (b.delete q).2.blobs := by
  rw [BlobModel.blobs_delete]
  split_ifs
  · exact h.erase q
  · exact h

theorem utf8_blobAdd {b : BlobModel} (h : Utf8 b.blobs) (s : String) (id? : Option Nat) :
    Utf8 (b.add p (utf8Bytes s) id?).2.blobs := by
  unfold BlobModel.add
  cases b.pool.take id? with
  | none => exact h
  | some r => exact h.write r.1 s

theorem utf8_storeBlob (h : Utf8 m.blobs.blobs) (s : String) : Utf8 (m.storeBlob p s).2.blobs := by
  unfold storeBlob
  split_ifs
  · exact h
  · exact utf8_blobAdd h s none

/-- Every operation on the model writes only the bytes of texts to its blobs. -/
theorem utf8_add (h : Utf8 m.blobs.blobs) (s : String) (id? : Option Nat) : Utf8 (m.add p s id?).2.blobs.blobs := by
  have hb := utf8_storeBlob (p := p) h s
  unfold TextModel.add
  rcases hst : m.storeBlob p s with ⟨_ | q, b⟩ <;> rw [hst] at hb <;> dsimp only at hb ⊢
  · exact hb
  · -- a pointer refused takes the new blob out again
    split
    · exact hb
    · split_ifs
      · exact hb
      · exact utf8_blobDelete hb q

theorem utf8_update (h : Utf8 m.blobs.blobs) (x : Nat) (s : String) : Utf8 (m.update p x s).2.blobs.blobs := by
  unfold TextModel.update
  cases m.pointers.vals x with
  | none => exact utf8_add h s (some x)
  | some v =>
    dsimp only
    split_ifs
    · exact h
    · have hb := utf8_storeBlob (p := p) h s
      rcases hst : m.storeBlob p s with ⟨_ | q, b⟩ <;> rw [hst] at hb <;> exact hb
    · exact utf8_blobDelete h _
    · show Utf8 (m.blobs.update p (pointerOf v) (utf8Bytes s)).2.blobs
      unfold BlobModel.update
      split_ifs
      · exact h.write _ s
      · exact utf8_blobAdd h s _

theorem utf8_delete (h : Utf8 m.blobs.blobs) (x : Nat) : Utf8 (m.delete x).2.blobs.blobs := by
  unfold TextModel.delete
  cases m.pointers.vals x with
  | none => exact h
  | some v =>
    dsimp only
    split_ifs
    · exact h
    · exact utf8_blobDelete h _

theorem readText_zero (B : Nat → Option (List UInt8)) : readText B (pointer 0) = some "" := by
  rw [readText, pointerOf_pointer, if_pos rfl]

theorem readText_blob (B : Nat → Option (List UInt8)) {v : Value} (hv : pointerOf v ≠ 0) (s : String) :
    readText (Function.update B (pointerOf v) (some (utf8Bytes s))) v = some s := by
  rw [readText, if_neg hv, Function.update_self, Option.bind_some, decodeUtf8_utf8Bytes]
  rfl

theorem readText_pointer (B : Nat → Option (List UInt8)) {q : Nat} (hq : q ≠ 0) (s : String) :
    readText (Function.update B q (some (utf8Bytes s))) (pointer q) = some s := by
  have hread := readText_blob B (v := pointer q) (by rwa [pointerOf_pointer]) s
  rwa [pointerOf_pointer] at hread

/-- A model whose blobs hold text reads every row without a fault. -/
theorem Sound.get (h : m.Sound) (x : Nat) : m.get x = .ok (m.text x) := by
  unfold TextModel.get text
  cases hv : m.pointers.vals x with
  | none => rfl
  | some v =>
    by_cases hz : pointerOf v = 0
    · simp only [hz, if_true, Option.bind_some, readText]
    · obtain ⟨bs, hB⟩ := Option.isSome_iff_exists.mp (h.linked.blob x v hv hz)
      obtain ⟨s, rfl⟩ := h.utf8 _ bs hB
      simp only [hz, if_false, hB, decodeUtf8_utf8Bytes, Option.bind_some, readText]
      rfl

/-- A row whose pointer and blob are unchanged reads as before. -/
theorem text_congr {m' : TextModel} {y : Nat} (hP : m'.pointers.vals y = m.pointers.vals y)
    (hB : ∀ v, m.pointers.vals y = some v → pointerOf v ≠ 0 →
      m'.blobs.blobs (pointerOf v) = m.blobs.blobs (pointerOf v)) :
    m'.text y = m.text y := by
  unfold text
  rw [hP]
  cases hv : m.pointers.vals y with
  | none => rfl
  | some v =>
    show readText _ v = readText _ v
    unfold readText
    by_cases hz : pointerOf v = 0
    · rw [if_pos hz, if_pos hz]
    · rw [if_neg hz, if_neg hz, hB v hv hz]

/-- A row given the pointer `o`, which reads `r`, among blobs that keep every other row's blob,
reads `r`; every other row reads as before. -/
theorem text_set {m' : TextModel} {x : Nat} {o : Option Value} {r : Option String}
    (hP : m'.pointers.vals = Function.update m.pointers.vals x o) (hr : o.bind (readText m'.blobs.blobs) = r)
    (hB : ∀ y v, y ≠ x → m.pointers.vals y = some v → pointerOf v ≠ 0 →
      m'.blobs.blobs (pointerOf v) = m.blobs.blobs (pointerOf v)) :
    m'.text = Function.update m.text x r := by
  funext y
  by_cases hy : y = x
  · subst hy
    rw [Function.update_self, text, hP, Function.update_self]
    exact hr
  · rw [Function.update_of_ne hy]
    exact text_congr (by rw [hP, Function.update_of_ne hy]) (hB y · hy)

/-- Storing a text's blob: empty text is the pointer 0 with the blobs as they were; other text
goes under the id the blob pool hands out next, which held no blob. -/
theorem Sound.storeBlob (h : m.Sound) (s : String) :
    (s = "" ∧ m.storeBlob p s = (.ok 0, m.blobs)) ∨
      (m.storeBlob p s = (.ok m.blobs.pool.next.1,
          m.blobs.put p m.blobs.pool.next.2 m.blobs.pool.next.1 [m.blobs.pool.next.1] (utf8Bytes s)) ∧
        m.blobs.pool.next.1 ≠ 0 ∧ m.blobs.blobs m.blobs.pool.next.1 = none) := by
  by_cases hs : s = ""
  · subst hs
    exact .inl ⟨rfl, rfl⟩
  · have hempty : s.isEmpty = false := by simpa using hs
    have hfresh := h.blobs_valid.next
    refine .inr ⟨?_, Nat.pos_iff_ne_zero.mp hfresh.2.2.2.1,
      Option.not_isSome_iff_eq_none.mp fun hb => hfresh.2.2.1 (h.blob_live _ hb)⟩
    simp only [TextModel.storeBlob, hempty, Bool.false_eq_true, if_false, BlobModel.add_none]

/-- An add that answers an id gives that row the text, and every other row reads as before: the
pointer goes in at the id, and a new blob lies under an id no row pointed at. -/
theorem Sound.text_add (h : m.Sound) {s : String} {id? : Option Nat} {x : Nat} (hx : (m.add p s id?).1 = .ok x) :
    (m.add p s id?).2.text = Function.update m.text x (some s) := by
  -- the pointer `q` goes in under the id the pointer pool takes, over the blobs `b`
  have hpoint : ∀ {q : Nat} {b : BlobModel}, m.storeBlob p s = (.ok q, b) →
      readText b.blobs (pointer q) = some s →
      (∀ y v, m.pointers.vals y = some v → pointerOf v ≠ 0 → b.blobs (pointerOf v) = m.blobs.blobs (pointerOf v)) →
      (m.add p s id?).2.text = Function.update m.text x (some s) := by
    intro q b hst hq hB
    rcases hr : m.pointers.add 8 (pointer q) id? with ⟨_ | y, ptrs⟩
    · simp only [TextModel.add, hst, hr] at hx
      cases hx
    · have hmodel : m.add p s id? = (.ok y, ⟨ptrs, b⟩) := by
        simp only [TextModel.add, hst, hr]
      rw [hmodel] at hx ⊢
      cases hx
      have hvals : ptrs.vals = Function.update m.pointers.vals x (some (pointer q)) := by
        have hput := DataModel.vals_add_of_ok (m := m.pointers)
          (show (m.pointers.add 8 (pointer q) id?).1 = .ok x by rw [hr])
        rwa [hr] at hput
      exact text_set hvals hq fun z v _ hv hz => hB z v hv hz
  rcases h.storeBlob (p := p) s with ⟨rfl, hst⟩ | ⟨hst, hq0, hnone⟩
  · exact hpoint hst (readText_zero _) fun _ _ _ _ => rfl
  · refine hpoint hst ?_ fun y v hv hz => ?_
    · rw [BlobModel.blobs_put]
      exact readText_pointer _ hq0 s
    · rw [BlobModel.blobs_put, Function.update_of_ne (h.linked.ne_of_eq_none hnone hv hz)]

/-- Taking out, or writing over, the blob of a row with a nonzero pointer keeps every other row's
blob: no other row points at it. -/
theorem Sound.blob_keeps (h : m.Sound) {x : Nat} {v : Value} (hv : m.pointers.vals x = some v)
    {B : Nat → Option (List UInt8)}
    (hB : B = Function.update m.blobs.blobs (pointerOf v) (B (pointerOf v))) :
    ∀ y w, y ≠ x → m.pointers.vals y = some w → pointerOf w ≠ 0 → B (pointerOf w) = m.blobs.blobs (pointerOf w) := by
  intro y w hyx hw hwz
  have hne : pointerOf w ≠ pointerOf v := fun heq => hyx (h.linked.apart y x w v hw hv heq hwz)
  rw [hB, Function.update_of_ne hne]

/-- Deleting a row answers whether it had a pointer and takes its text out; every other row
reads as before, since no other row pointed at its blob. -/
theorem Sound.text_delete (h : m.Sound) (x : Nat) :
    (m.delete x).1 = (m.pointers.vals x).isSome ∧ (m.delete x).2.text = Function.update m.text x none := by
  have hvals : (m.pointers.delete x).2.vals = Function.update m.pointers.vals x none := rfl
  cases hv : m.pointers.vals x with
  | none =>
    have hmodel : m.delete x = (false, m) := by
      simp only [TextModel.delete, hv]
    refine ⟨by rw [hmodel]; rfl, ?_⟩
    rw [hmodel, eq_comm, Function.update_eq_self_iff, text, hv]
    rfl
  | some v =>
    by_cases hz : pointerOf v = 0
    · -- empty text: only the pointer goes
      have hmodel : m.delete x = ((m.pointers.delete x).1, { m with pointers := (m.pointers.delete x).2 }) := by
        simp only [TextModel.delete, hv, hz, if_true]
      rw [hmodel]
      exact ⟨by simp only [DataModel.delete, hv], text_set hvals rfl fun _ _ _ _ _ => rfl⟩
    · -- the row's blob goes too; it was allocated, and no other row pointed at it
      have hal := h.blob_live _ (h.linked.blob x v hv hz)
      have hmodel : m.delete x = ((m.blobs.delete (pointerOf v)).1 && (m.pointers.delete x).1,
          ⟨(m.pointers.delete x).2, (m.blobs.delete (pointerOf v)).2⟩) := by
        simp only [TextModel.delete, hv, hz, if_false]
      rw [hmodel]
      refine ⟨by simp only [BlobModel.delete, if_pos hal, DataModel.delete, hv, Bool.true_and],
        text_set hvals rfl (h.blob_keeps hv ?_)⟩
      rw [BlobModel.blobs_delete, if_pos hal, Function.update_self]

/-- An add under an id asked for answers that id. -/
theorem eq_of_add_some {s : String} {x y : Nat} (hx : (m.add p s (some x)).1 = .ok y) : y = x := by
  unfold TextModel.add at hx
  rcases hst : m.storeBlob p s with ⟨_ | q, b⟩
  · simp only [hst] at hx
    cases hx
  · rcases hr : m.pointers.add 8 (pointer q) (some x) with ⟨_ | z, ptrs⟩
    · simp only [hst, hr] at hx
      cases hx
    · simp only [hst, hr, Except.ok.injEq] at hx
      subst hx
      exact DataModel.eq_of_add_some (show (m.pointers.add 8 (pointer q) (some x)).1 = .ok z by rw [hr])

/-- Giving a row a text that answers leaves the row reading that text, and every other row as
before, in each of the ways the model tells apart. -/
theorem Sound.text_update (h : m.Sound) {x : Nat} {s : String} (hx : (m.update p x s).1 = .ok ()) :
    (m.update p x s).2.text = Function.update m.text x (some s) := by
  cases hv : m.pointers.vals x with
  | none =>
    -- a row without text is added under its id
    have hmodel : m.update p x s = ((m.add p s (some x)).1.map fun _ => (), (m.add p s (some x)).2) := by
      simp only [TextModel.update, hv]
    rw [hmodel] at hx ⊢
    cases hadd : (m.add p s (some x)).1 with
    | error e =>
      rw [hadd] at hx
      cases hx
    | ok y =>
      obtain rfl := eq_of_add_some hadd
      exact h.text_add hadd
  | some v =>
    have hal : m.pointers.pool.Allocated x := (h.live x).mpr (by rw [hv]; rfl)
    -- a live row's pointer is rewritten in place
    have hset : ∀ q, m.pointers.update 8 x (pointer q) =
        (.ok (), ⟨m.pointers.pool, Function.update m.pointers.vals x (some (pointer q))⟩) := fun q =>
      DataModel.update_live hal (by rw [TextFile.length_encode_pointer])
    by_cases hz : pointerOf v = 0 <;> by_cases hs : s = ""
    · -- an empty text stays empty
      subst hs
      have hmodel : m.update p x "" = (.ok (), m) := by
        simp only [TextModel.update, hv, hz, if_true, show "".isEmpty = true from rfl]
      rw [hmodel, eq_comm, Function.update_eq_self_iff, text, hv]
      show some "" = readText m.blobs.blobs v
      rw [readText, if_pos hz]
    · -- a text appears: a new blob, and the row points at it
      have hempty : s.isEmpty = false := by simpa using hs
      rcases h.storeBlob (p := p) s with ⟨hs', -⟩ | ⟨hst, hq0, hnone⟩
      · exact absurd hs' hs
      have hmodel : m.update p x s = (.ok (), ⟨⟨m.pointers.pool, Function.update m.pointers.vals x
          (some (pointer m.blobs.pool.next.1))⟩, m.blobs.put p m.blobs.pool.next.2 m.blobs.pool.next.1
            [m.blobs.pool.next.1] (utf8Bytes s)⟩) := by
        simp only [TextModel.update, hv, hz, if_true, hempty, Bool.false_eq_true, if_false, hst, hset]
      rw [hmodel]
      refine text_set rfl ?_ fun y w _ hw hwz => ?_
      · show readText (m.blobs.put _ _ _ _ _).blobs (pointer _) = some s
        rw [BlobModel.blobs_put]
        exact readText_pointer _ hq0 s
      · rw [BlobModel.blobs_put, Function.update_of_ne (h.linked.ne_of_eq_none hnone hw hwz)]
    · -- a text cleared: its blob goes, and the row points at 0
      subst hs
      have hal' := h.blob_live _ (h.linked.blob x v hv hz)
      have hmodel : m.update p x "" = (.ok (), ⟨⟨m.pointers.pool, Function.update m.pointers.vals x
          (some (pointer 0))⟩, (m.blobs.delete (pointerOf v)).2⟩) := by
        simp only [TextModel.update, hv, hz, if_false, show "".isEmpty = true from rfl, if_true, hset]
      rw [hmodel]
      refine text_set rfl (readText_zero _) (h.blob_keeps hv ?_)
      rw [BlobModel.blobs_delete, if_pos hal', Function.update_self]
    · -- a text changed: its blob is written over in place
      have hempty : s.isEmpty = false := by simpa using hs
      have hal' := h.blob_live _ (h.linked.blob x v hv hz)
      have hmodel : m.update p x s = (.ok (), { m with blobs := (m.blobs.update p (pointerOf v) (utf8Bytes s)).2 }) := by
        simp only [TextModel.update, hv, hz, if_false, hempty, Bool.false_eq_true, BlobModel.update, if_pos hal']
      rw [hmodel]
      have hP : m.pointers.vals = Function.update m.pointers.vals x (some v) := by
        rw [eq_comm, Function.update_eq_self_iff, hv]
      refine text_set hP ?_ (h.blob_keeps hv ?_)
      · show readText (m.blobs.update p (pointerOf v) (utf8Bytes s)).2.blobs v = some s
        rw [BlobModel.blobs_update hal']
        exact readText_blob _ hz s
      · rw [BlobModel.blobs_update hal', Function.update_self]

end TextModel

end ColumnDb.Blob

namespace ColumnDb.Column

open ColumnDb.Tree ColumnDb.Blob

/-- What a program sees of a column's store: the list model of its tree file, with the kind of
its values and the payload capacity of its nodes, or the model of its text file, with the payload
capacity of its blob slots. -/
inductive ColumnModel
  | tree (k : ValueKind) (cap : Nat) (m : RowModel)
  | text (p : Nat) (m : TextModel)

namespace ColumnModel

/-- The column's pool of row ids. -/
def pool : ColumnModel → Slot.IdPool
  | tree _ _ m => m.pool
  | text _ m => m.pointers.pool

/-- A row is live when the column's pool has handed its id out. -/
def Live (cm : ColumnModel) (x : Nat) : Prop := cm.pool.Allocated x

instance (cm : ColumnModel) (x : Nat) : Decidable (cm.Live x) := inferInstanceAs (Decidable (cm.pool.Allocated x))

/-- The value of each row. -/
def value : ColumnModel → Nat → Option Value
  | tree _ _ m => fun x => m.rows.lookup x
  | text _ m => Option.map .text ∘ m.text

/-- What the column's file keeps of its model. -/
def Sound : ColumnModel → Prop
  | tree _ _ m => m.Sound
  | text _ m => m.Sound

/-- Deleting a row, answering whether it held a value. -/
def delete (x : Nat) : ColumnModel → Bool × ColumnModel
  | tree k cap m => ((m.delete x).1, tree k cap (m.delete x).2)
  | text p m => ((m.delete x).1, text p (m.delete x).2)

/-- The kind of the column's values. -/
def kind : ColumnModel → ValueKind
  | tree k _ _ => k
  | text _ _ => .text

/-- Adding a value under a given id, or under a free one: a value of another kind is refused, and
so is what the file refuses. -/
def insert (v : Value) (id? : Option Nat) (cm : ColumnModel) : Except CollectionError Nat × ColumnModel :=
  if v.kind == cm.kind then
    match cm with
    | tree k cap m => ((m.add cap v id?).1.mapError .file, tree k cap (m.add cap v id?).2)
    | text p m =>
      ((m.add p (ColumnStore.textOf v) id?).1.mapError .file, text p (m.add p (ColumnStore.textOf v) id?).2)
  else (.error (.typeMismatch "" cm.kind v.kind), cm)

/-- Giving a row a new value: a value of another kind is refused, and so is what the file
refuses. -/
def update (x : Nat) (v : Value) (cm : ColumnModel) : Except CollectionError Unit × ColumnModel :=
  if v.kind == cm.kind then
    match cm with
    | tree k cap m => ((m.update cap x v).1.mapError .file, tree k cap (m.update cap x v).2)
    | text p m =>
      ((m.update p x (ColumnStore.textOf v)).1.mapError .file, text p (m.update p x (ColumnStore.textOf v)).2)
  else (.error (.typeMismatch "" cm.kind v.kind), cm)

/-- Room for a value written under `id?`: a value that lies in its kind, an id asked for that fits
a link, an id after `latest` that fits one when none is free, and for text, room for its blob. -/
def Room : ColumnModel → Value → Option Nat → Prop
  | tree _ _ m, v, none => v.Fits ∧ (m.pool.free = [] → m.pool.latest + 1 < Nat.pow 256 8)
  | tree _ _ _, v, some x => v.Fits ∧ x < Nat.pow 256 8
  | text p m, v, id? => TextEvent.AllowedOn p m (.add (ColumnStore.textOf v) id?)

variable {cm : ColumnModel}

theorem ok_of_mapError {α : Type} {r : Except FileError α} {a : α}
    (h : r.mapError CollectionError.file = .ok a) : r = .ok a := by
  cases r with
  | error e => cases h
  | ok b =>
    cases h
    rfl

/-- A value of the text kind is the text it holds. -/
theorem eq_text_of_kind {v : Value} (h : v.kind = .text) : v = .text (ColumnStore.textOf v) := by
  cases v with
  | text s => rfl
  | bool b => cases h
  | int k n => cases h
  | float k bits => cases h

/-- An insert that answers an id gives that row the value; every other row keeps its value. -/
theorem Sound.value_insert (h : cm.Sound) {v : Value} {id? : Option Nat} {x : Nat} (hx : (cm.insert v id?).1 = .ok x) :
    (cm.insert v id?).2.value = Function.update cm.value x (some v) := by
  unfold insert at hx ⊢
  by_cases hk : v.kind = cm.kind
  · rw [if_pos (beq_iff_eq.mpr hk)] at hx ⊢
    cases cm with
    | tree k cap m => exact RowModel.lookup_add h (ok_of_mapError hx)
    | text p m =>
      show Option.map Value.text ∘ (m.add p _ id?).2.text = Function.update (Option.map Value.text ∘ m.text) x (some v)
      rw [TextModel.Sound.text_add h (ok_of_mapError hx), Function.comp_update, Option.map_some, ← eq_text_of_kind hk]
  · rw [if_neg (mt beq_iff_eq.mp hk)] at hx
    cases hx

/-- A tree's model hands a new row an id at most one past its pool's latest. -/
theorem insert_none_le {kd : ValueKind} {cap : Nat} {m : RowModel} (hs : (tree kd cap m).Sound) {v : Value} {x : Nat}
    (hx : ((tree kd cap m).insert v none).1 = .ok x) : x ≤ (tree kd cap m).pool.latest + 1 := by
  unfold insert at hx
  split_ifs at hx
  exact RowModel.add_none_le hs.valid (ok_of_mapError hx)

/-- Setting a row that answers gives it the value; every other row keeps its value. -/
theorem Sound.value_update (h : cm.Sound) {x : Nat} {v : Value} (hx : (cm.update x v).1 = .ok ()) :
    (cm.update x v).2.value = Function.update cm.value x (some v) := by
  unfold update at hx ⊢
  by_cases hk : v.kind = cm.kind
  · rw [if_pos (beq_iff_eq.mpr hk)] at hx ⊢
    cases cm with
    | tree k cap m => exact RowModel.lookup_update h (ok_of_mapError hx)
    | text p m =>
      show Option.map Value.text ∘ (m.update p x _).2.text = Function.update (Option.map Value.text ∘ m.text) x (some v)
      rw [TextModel.Sound.text_update h (ok_of_mapError hx), Function.comp_update, Option.map_some, ← eq_text_of_kind hk]
  · rw [if_neg (mt beq_iff_eq.mp hk)] at hx
    cases hx

/-- The live rows are those with a value. -/
theorem Sound.live_iff (h : cm.Sound) (x : Nat) : cm.Live x ↔ (cm.value x).isSome := by
  cases cm with
  | tree k cap m => exact RowModel.Sound.live_iff h x
  | text p m =>
    show m.pointers.pool.Allocated x ↔ ((m.text x).map Value.text).isSome
    rw [Option.isSome_map, h.live x, TextModel.text]
    cases hv : m.pointers.vals x with
    | none => rfl
    | some v =>
      -- a live row reads a text, since its blob holds one
      simp only [Option.isSome_some, Option.bind_some, true_iff]
      unfold TextModel.readText
      split_ifs with hz
      · rfl
      · obtain ⟨bs, hB⟩ := Option.isSome_iff_exists.mp (h.linked.blob x v hv hz)
        obtain ⟨s, rfl⟩ := h.utf8 _ bs hB
        rw [hB, Option.bind_some, Text.decodeUtf8_utf8Bytes]
        rfl

/-- Deleting a row answers whether it was live, and takes its value out; every other row keeps
its value. -/
theorem Sound.value_delete (h : cm.Sound) (x : Nat) :
    (cm.delete x).1 = decide (cm.Live x) ∧ (cm.delete x).2.value = Function.update cm.value x none := by
  cases cm with
  | tree k cap m =>
    refine ⟨?_, RowModel.lookup_delete x⟩
    show m.rows.any (·.1 == x) = decide (m.pool.Allocated x)
    rw [any_fst_eq, Bool.eq_iff_iff, decide_eq_true_iff, RowModel.Sound.live_iff h x]
  | text p m =>
    obtain ⟨hans, htext⟩ := TextModel.Sound.text_delete h x
    refine ⟨?_, ?_⟩
    · show (m.delete x).1 = decide (m.pointers.pool.Allocated x)
      rw [hans, Bool.eq_iff_iff, decide_eq_true_iff, h.live x]
    · show Option.map Value.text ∘ (m.delete x).2.text = Function.update (Option.map Value.text ∘ m.text) x none
      rw [htext, Function.comp_update]
      rfl

end ColumnModel

/-! ## A column's store standing for its model -/

namespace ColumnStore

open ColumnDb.Disk ColumnDb.Slot

/-- The stores a column's files lie on. -/
def sids : ColumnStore → List Nat
  | ordered t => [t.core.sid]
  | text t => [t.pointers.core.sid, t.blobs.core.sid]

/-- A column's store standing for its model: a tree file for the list model of its kind and node
payload, or a text file for the text model, its blobs holding text. -/
def Tracks : Disk × ColumnStore → ColumnModel → Prop
  | (d, ordered t), .tree k cap m => TreeCall.Tracks k cap (d, t) m
  | (d, text t), .text p m => TextEvent.Tracks p (d, t) m ∧ TextModel.Utf8 m.blobs.blobs
  | _, _ => False

theorem onTree_ok {α : Type} {m : TreeOp α} {d d' : Disk} {t t' : TreeFile} {a : α} (h : m (d, t) = .ok a (d', t')) :
    onTree m d t = .ok a (d', ordered t') := by
  simp only [onTree, EStateM.run, h]

theorem onText_ok {α : Type} {m : TextOp α} {d d' : Disk} {t t' : TextFile} {a : α} (h : m (d, t) = .ok a (d', t')) :
    onText m d t = .ok a (d', text t') := by
  simp only [onText, EStateM.run, h]

/-- The answer and the state a run on a store ends in. -/
def outcome {α : Type} : EStateM.Result CollectionError (Disk × ColumnStore) α →
    Except CollectionError α × (Disk × ColumnStore)
  | .ok a st => (.ok a, st)
  | .error e st => (.error e, st)

theorem outcome_onTree {α : Type} {m : TreeOp α} {d d' : Disk} {t t' : TreeFile} {r : Except FileError α}
    (h : FileOp.outcome (m (d, t)) = (r, (d', t'))) : outcome (onTree m d t) = (r.mapError .file, (d', ordered t')) := by
  cases hm : m (d, t) with
  | ok a st =>
    rw [hm, FileOp.outcome_ok, Prod.mk.injEq] at h
    obtain ⟨rfl, rfl⟩ := h
    simp only [onTree, EStateM.run, hm]
    rfl
  | error e st =>
    rw [hm, FileOp.outcome_error, Prod.mk.injEq] at h
    obtain ⟨rfl, rfl⟩ := h
    simp only [onTree, EStateM.run, hm]
    rfl

theorem outcome_onText {α : Type} {m : TextOp α} {d d' : Disk} {t t' : TextFile} {r : Except FileError α}
    (h : FileOp.outcome (m (d, t)) = (r, (d', t'))) : outcome (onText m d t) = (r.mapError .file, (d', text t')) := by
  cases hm : m (d, t) with
  | ok a st =>
    rw [hm, FileOp.outcome_ok, Prod.mk.injEq] at h
    obtain ⟨rfl, rfl⟩ := h
    simp only [onText, EStateM.run, hm]
    rfl
  | error e st =>
    rw [hm, FileOp.outcome_error, Prod.mk.injEq] at h
    obtain ⟨rfl, rfl⟩ := h
    simp only [onText, EStateM.run, hm]
    rfl

/-- A write checks the value's kind before it runs on the file. -/
theorem expect_bind {α : Type} (v : Value) (m : StoreOp α) (d : Disk) (s : ColumnStore) :
    (do expect v; m : StoreOp α) (d, s) =
      if v.kind == s.kind then m (d, s) else .error (.typeMismatch "" s.kind v.kind) (d, s) := by
  show EStateM.bind (expect v) (fun _ => m) (d, s) = _
  by_cases hk : (v.kind == s.kind) = true
  · simp only [EStateM.bind, expect, if_pos hk]
  · simp only [EStateM.bind, expect, if_neg hk]

theorem Tracks.kind {d : Disk} {s : ColumnStore} {cm : ColumnModel} (h : Tracks (d, s) cm) : s.kind = cm.kind := by
  cases s with
  | ordered t =>
    cases cm with
    | tree k cap m => exact h.2.2.1
    | text p m => exact h.elim
  | text t =>
    cases cm with
    | tree k cap m => exact h.elim
    | text p m => rfl

/-- A store answers whether it holds a row as its model does: whether the row is live. -/
theorem Tracks.contains {d : Disk} {s : ColumnStore} {cm : ColumnModel} (h : Tracks (d, s) cm) (x : Nat) :
    s.contains x = decide (cm.Live x) := by
  cases s with
  | ordered t =>
    cases cm with
    | tree k cap m =>
      show t.core.isAllocated x = decide (m.pool.Allocated x)
      rw [Bool.eq_iff_iff, decide_eq_true_iff, BlockFile.isAllocated_iff_pool, h.2.1]
    | text p m => exact h.elim
  | text t =>
    cases cm with
    | tree k cap m => exact h.elim
    | text p m =>
      show t.pointers.core.isAllocated x = decide (m.pointers.pool.Allocated x)
      rw [Bool.eq_iff_iff, decide_eq_true_iff, BlockFile.isAllocated_iff_pool, h.1.pointers.1.pool]

/-- A file standing for its model keeps the model sound. -/
theorem Tracks.sound {st : Disk × ColumnStore} {cm : ColumnModel} (h : Tracks st cm) : cm.Sound := by
  obtain ⟨d, s⟩ := st
  cases s with
  | ordered t =>
    cases cm with
    | tree k cap m =>
      obtain ⟨hR, hpool, -, -⟩ := h
      obtain ⟨T, val, hs, hrows⟩ := hR.shape
      refine ⟨by rw [hrows, fst_rowsOf]; exact hs.ids.nodup, fun x => ?_, hpool ▸ hR.core.allocator.valid⟩
      rw [← hpool]
      exact (BlockFile.isAllocated_iff_pool _ x).symm.trans (hR.isAllocated_iff x)
    | text p m => exact h.elim
  | text t =>
    cases cm with
    | tree k cap m => exact h.elim
    | text p m =>
      obtain ⟨h, hu⟩ := h
      exact ⟨h.linked, hu, h.pointers.1.allocated_iff, fun q hq => h.blobs.1.allocated_of_isSome hq,
        h.pointers.1.pool ▸ h.pointers.1.holds.core.allocator.valid, h.blobs.1.valid⟩

theorem sids_ordered {t t' : TreeFile} (h : TreeFile.Same t t') : (ordered t').sids = (ordered t).sids := by
  show [t'.core.store.store] = [t.core.store.store]
  rw [h.store]

theorem sids_text {t t' : TextFile} (h : TextFile.SameStores t t') : (text t').sids = (text t).sids := by
  show [t'.pointers.core.sid, t'.blobs.core.sid] = [t.pointers.core.sid, t.blobs.core.sid]
  rw [h.1, h.2]

/-- A tree file whose run follows the list model stands, on the same store, for the model the run
ends in. -/
theorem tracks_of_follows {α : Type} {d : Disk} {t : TreeFile} {k : ValueKind} {cap : Nat}
    {r : EStateM.Result FileError (Disk × TreeFile) α} {m' : Except FileError α × RowModel} (hk : t.kind = k)
    (hcap : NodeSlot.payloadCapacity t.core.layout = cap) (hf : RowEvent.Follows d t r m') :
    ∃ t', FileOp.outcome r = (m'.1, (d, t')) ∧ Tracks (d, ordered t') (.tree k cap m'.2) ∧
      (ordered t').sids = (ordered t).sids := by
  obtain ⟨t', hout, hrows, hpool, hsame⟩ := hf
  exact ⟨t', hout, ⟨hrows, hpool, hsame.kind.trans hk, (congrArg _ hsame.layout).trans hcap⟩, sids_ordered hsame⟩

/-- Deleting a row answers as the model does, on the same stores. -/
theorem Tracks.delete {d : Disk} {s : ColumnStore} {cm : ColumnModel} (h : Tracks (d, s) cm) (x : Nat) :
    ∃ s', ColumnStore.delete x (d, s) = .ok (cm.delete x).1 (d, s') ∧ Tracks (d, s') (cm.delete x).2 ∧
      s'.sids = s.sids := by
  cases s with
  | ordered t =>
    cases cm with
    | tree k cap m =>
      obtain ⟨pool, R⟩ := m
      obtain ⟨hR, hpool, hk, hcap⟩ := h
      subst hpool
      obtain ⟨t', hout, h', hsids⟩ := tracks_of_follows hk hcap (RowEvent.delete_follows hR x)
      exact ⟨ordered t', onTree_ok (FileOp.eq_ok_of_outcome hout), h', hsids⟩
    | text p m => exact h.elim
  | text t =>
    cases cm with
    | tree k cap m => exact h.elim
    | text p m =>
      obtain ⟨t', hrun, h', hsame⟩ := h.1.delete x
      exact ⟨text t', onText_ok hrun, ⟨h', TextModel.utf8_delete h.2 x⟩, sids_text hsame⟩

/-- A value added with room for it answers as the model does, on the same stores. -/
theorem Tracks.insert {d : Disk} {s : ColumnStore} {cm : ColumnModel} (h : Tracks (d, s) cm) {v : Value}
    {id? : Option Nat} (hroom : cm.Room v id?) :
    ∃ s', outcome (ColumnStore.insert v id? (d, s)) = ((cm.insert v id?).1, (d, s')) ∧
      Tracks (d, s') (cm.insert v id?).2 ∧ s'.sids = s.sids := by
  unfold ColumnStore.insert ColumnModel.insert
  rw [expect_bind, h.kind]
  by_cases hk : v.kind = cm.kind
  · rw [if_pos (beq_iff_eq.mpr hk), if_pos (beq_iff_eq.mpr hk)]
    cases s with
    | ordered t =>
      cases cm with
      | tree k cap m =>
        obtain ⟨pool, R⟩ := m
        obtain ⟨hR, hpool, hk', hcap⟩ := h
        subst hpool hk' hcap
        have he : (RowEvent.add v id?).Allowed t.kind t.core.allocator.pool := by
          cases id? <;> exact ⟨hk, hroom.1, hroom.2⟩
        obtain ⟨t', hout, h', hsids⟩ := tracks_of_follows rfl rfl (RowEvent.add_follows hR he)
        exact ⟨ordered t', outcome_onTree hout, h', hsids⟩
      | text p m => exact h.elim
    | text t =>
      cases cm with
      | tree k cap m => exact h.elim
      | text p m =>
        obtain ⟨t', hout, h', hsame⟩ := h.1.add hroom
        exact ⟨text t', outcome_onText hout, ⟨h', TextModel.utf8_add h.2 _ id?⟩, sids_text hsame⟩
  · rw [if_neg (mt beq_iff_eq.mp hk), if_neg (mt beq_iff_eq.mp hk)]
    exact ⟨s, rfl, h, rfl⟩

/-- Setting a row with room for its value answers as the model does, on the same stores. -/
theorem Tracks.update {d : Disk} {s : ColumnStore} {cm : ColumnModel} (h : Tracks (d, s) cm) {x : Nat} {v : Value}
    (hroom : cm.Room v (some x)) :
    ∃ s', outcome (ColumnStore.update x v (d, s)) = ((cm.update x v).1, (d, s')) ∧
      Tracks (d, s') (cm.update x v).2 ∧ s'.sids = s.sids := by
  unfold ColumnStore.update ColumnModel.update
  rw [expect_bind, h.kind]
  by_cases hk : v.kind = cm.kind
  · rw [if_pos (beq_iff_eq.mpr hk), if_pos (beq_iff_eq.mpr hk)]
    cases s with
    | ordered t =>
      cases cm with
      | tree k cap m =>
        obtain ⟨pool, R⟩ := m
        obtain ⟨hR, hpool, hk', hcap⟩ := h
        subst hpool hk' hcap
        obtain ⟨t', hout, h', hsids⟩ := tracks_of_follows rfl rfl (RowEvent.update_follows hR
          (show (RowEvent.update x v).Allowed t.kind t.core.allocator.pool from ⟨hk, hroom.1, hroom.2⟩))
        exact ⟨ordered t', outcome_onTree hout, h', hsids⟩
      | text p m => exact h.elim
    | text t =>
      cases cm with
      | tree k cap m => exact h.elim
      | text p m =>
        obtain ⟨t', hout, h', hsame⟩ := h.1.update hroom
        exact ⟨text t', outcome_onText hout, ⟨h', TextModel.utf8_update h.2 x _⟩, sids_text hsame⟩
  · rw [if_neg (mt beq_iff_eq.mp hk), if_neg (mt beq_iff_eq.mp hk)]
    exact ⟨s, rfl, h, rfl⟩

/-- A flush writes only the column's stores and keeps the store standing for its model. -/
theorem Tracks.flush {d : Disk} {s : ColumnStore} {cm : ColumnModel} (h : Tracks (d, s) cm) :
    ∃ d' s', ColumnStore.flush (d, s) = .ok () (d', s') ∧ Tracks (d', s') cm ∧
      Disk.Touches (· ∈ s.sids) d d' ∧ s'.sids = s.sids := by
  cases s with
  | ordered t =>
    cases cm with
    | tree k cap m =>
      obtain ⟨hR, hpool, hk, hcap⟩ := h
      obtain ⟨d', t', hrun, hrows, hw, -⟩ := hR.flush
      obtain ⟨hd, hsid⟩ := TreeFile.writesIn_flush d t () d' t' hrun
      refine ⟨d', ordered t', onTree_ok hrun, ⟨hrows, hw.pool.trans hpool, hw.kind.trans hk,
        (congrArg _ hw.layout).trans hcap⟩, hd.touches (List.mem_singleton_self _), ?_⟩
      show [t'.core.sid] = [t.core.sid]
      rw [show t'.core.sid = t.core.sid from hsid]
    | text p m => exact h.elim
  | text t =>
    cases cm with
    | tree k cap m => exact h.elim
    | text p m =>
      obtain ⟨⟨d', t'⟩, hrun, h', hd, hp, hb⟩ := h.1.flush_touches
      refine ⟨d', text t', onText_ok hrun, ⟨h', h.2⟩, hd.mono fun r hr => ?_, sids_text ⟨hp, hb⟩⟩
      rcases hr with rfl | rfl <;> simp [sids]

/-- A store standing for its model still does whatever is written to a store it does not lie on. -/
theorem Tracks.across {d d' : Disk} {r : Nat} {s : ColumnStore} {cm : ColumnModel} (h : Tracks (d, s) cm)
    (hw : Disk.OnlyIn d d' r) (hr : r ∉ s.sids) : Tracks (d', s) cm := by
  cases s with
  | ordered t =>
    cases cm with
    | tree k cap m => exact TreeCall.Tracks.across h hw fun he => hr (by simp [sids, he])
    | text p m => exact h.elim
  | text t =>
    cases cm with
    | tree k cap m => exact h.elim
    | text p m =>
      exact ⟨TextEvent.Tracks.across h.1 hw (fun he => hr (by simp [sids, he])) (fun he => hr (by simp [sids, he])), h.2⟩

/-- A store standing for its model still does after writes to stores it does not lie on. -/
theorem Tracks.touches {S : Nat → Prop} {d d' : Disk} {s : ColumnStore} {cm : ColumnModel} (h : Tracks (d, s) cm)
    (hw : Disk.Touches S d d') (hS : ∀ r, S r → r ∉ s.sids) : Tracks (d', s) cm :=
  hw.keeps (P := fun d => Tracks (d, s) cm) (fun _ _ r hr hw' h' => h'.across hw' (hS r hr)) h

/-- Reading a row answers its value in the model, on the same stores. -/
theorem Tracks.get {d : Disk} {s : ColumnStore} {cm : ColumnModel} (h : Tracks (d, s) cm) (x : Nat) :
    ∃ s', ColumnStore.get x (d, s) = .ok (cm.value x) (d, s') ∧ Tracks (d, s') cm ∧ s'.sids = s.sids := by
  cases s with
  | ordered t =>
    cases cm with
    | tree k cap m =>
      obtain ⟨hR, hpool, hk, hcap⟩ := h
      obtain ⟨t', hrun, hR', hkeep⟩ := hR.get x
      refine ⟨ordered t', onTree_ok hrun, ⟨hR', by rw [hkeep.core]; exact hpool, hkeep.kind.trans hk,
        by rw [hkeep.core]; exact hcap⟩, ?_⟩
      show [t'.core.sid] = [t.core.sid]
      rw [hkeep.core]
    | text p m => exact h.elim
  | text t =>
    cases cm with
    | tree k cap m => exact h.elim
    | text p m =>
      obtain ⟨t', hout, h', hsame⟩ := h.1.get x
      -- the model reads every row, since its blobs hold text
      rw [TextModel.Sound.get h.sound x] at hout
      refine ⟨text t', ?_, ⟨h', h.2⟩, sids_text hsame⟩
      simp only [ColumnStore.get, ColumnStore.dispatch, ColumnStore.onText, EStateM.run, bind, EStateM.bind,
        FileOp.eq_ok_of_outcome hout]
      rfl

/-- A store standing for its model lies on stores the disk has. -/
theorem Tracks.sids_lt {d : Disk} {s : ColumnStore} {cm : ColumnModel} (h : Tracks (d, s) cm) :
    ∀ r ∈ s.sids, r < d.stores.size := by
  cases s with
  | ordered t =>
    cases cm with
    | tree k cap m =>
      intro r hr
      rw [show r = t.core.sid from List.mem_singleton.mp hr]
      exact h.1.core.store
    | text p m => exact h.elim
  | text t =>
    cases cm with
    | tree k cap m => exact h.elim
    | text p m =>
      intro r hr
      rcases List.mem_pair.mp hr with rfl | rfl
      · exact h.1.pointers.1.holds.core.store
      · exact h.1.blobs.1.holds.splits.core.store

/-- The pool of row ids of a column's files. -/
def pool : ColumnStore → IdPool
  | ordered t => t.core.allocator.pool
  | text t => t.pointers.core.allocator.pool

theorem Tracks.pool {d : Disk} {s : ColumnStore} {cm : ColumnModel} (h : Tracks (d, s) cm) : s.pool = cm.pool := by
  cases s with
  | ordered t =>
    cases cm with
    | tree k cap m => exact h.2.1
    | text p m => exact h.elim
  | text t =>
    cases cm with
    | tree k cap m => exact h.elim
    | text p m => exact h.1.pointers.1.pool

/-- Room in a column's files for a value under any id that fits a link: a value that lies in its
kind for a tree, room for the blob of its text in the blob file otherwise. -/
def Room : ColumnStore → Value → Prop
  | ordered _, v => v.Fits
  | text t, v => t.blobs.Room none (Text.utf8Bytes (textOf v)).length

instance : (s : ColumnStore) → (v : Value) → Decidable (s.Room v)
  | ordered _, v => inferInstanceAs (Decidable v.Fits)
  | text t, v => inferInstanceAs (Decidable (t.blobs.Room none (Text.utf8Bytes (textOf v)).length))

/-- Room in the files for a value is room in the model, under an id asked for that fits a link,
or under a free id when the pool can hand out one past `latest`. -/
theorem Tracks.room {d : Disk} {s : ColumnStore} {cm : ColumnModel} (h : Tracks (d, s) cm) {v : Value}
    (hv : s.Room v) {id? : Option Nat} (hid : ∀ x, id? = some x → x < Nat.pow 256 8)
    (hnext : id? = none → cm.pool.latest + 1 < Nat.pow 256 8) : cm.Room v id? := by
  cases s with
  | ordered t =>
    cases cm with
    | tree k cap m =>
      cases id? with
      | none => exact ⟨hv, fun _ => hnext rfl⟩
      | some x => exact ⟨hv, hid x rfl⟩
    | text p m => exact h.elim
  | text t =>
    cases cm with
    | tree k cap m => exact h.elim
    | text p m =>
      -- the blob file's room is the blob model's, read through its pool and slot payload
      have hblobs : m.blobs.Room p none (Text.utf8Bytes (textOf v)).length := by
        obtain ⟨⟨-, hpool⟩, hpay⟩ := h.1.blobs
        show max m.blobs.pool.latest 0 + slotCount p _ < Nat.pow 256 8
        rw [← hpool, ← hpay]
        exact hv
      cases id? with
      | none => exact ⟨hblobs, fun _ => hnext rfl⟩
      | some x => exact ⟨hblobs, hid x rfl⟩

end ColumnStore

end ColumnDb.Column
