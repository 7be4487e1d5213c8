import Mathlib
import ColumnDb.Proofs.TreeSearch
import ColumnDb.Proofs.BlobChain
import ColumnDb.Proofs.ValueCodec

/-!
# A tree file as a list of rows

A tree file holds its rows as a list in value order: `TreeFile.Rows d t R` says that the file
`t`, over the disk `d`, is sound and true to its store, and that its heap holds a balanced tree
whose ids are exactly the allocated ones and whose in-order ids, with their values, are `R`.

Against that list every operation is a list operation. Adding a value puts the row right after
the last row whose value is not above it (`insertRow`), so rows of equal values keep the order
in which they came; deleting takes the row out; reading looks it up; a flush writes the file back
and changes no row.
-/

set_option autoImplicit false

namespace ColumnDb.Slot

open ColumnDb.Disk

/-- A new node slot for a payload that fits is sound at its place over any store, holds the
payload, links nowhere, and is new: its parent link is dirty. -/
theorem NodeSlot.create_ok {l : Layout} (id : Nat) {bs : List UInt8}
    (hlen : bs.length ≤ NodeSlot.payloadCapacity l) (hlt : bs.length < Nat.pow 256 4) :
    ∃ b, NodeSlot.create l id bs = .ok b ∧ (∀ d s, b.Sound l d s id) ∧ b.data = bs ∧
      b.parent.dirty = true ∧ b.parent.value = 0 ∧ b.left.value = 0 ∧ b.right.value = 0 ∧
      b.leftDepth.value = 0 ∧ b.rightDepth.value = 0 := by
  obtain ⟨w, hw⟩ : ∃ w, (Window.create (l.offset id + nodeHeader) (payloadCapacity l)).update bs = .ok w := by
    unfold Window.update
    rw [if_neg (by simp only [Window.create]; omega)]
    split
    · exact ⟨_, rfl⟩
    · exact ⟨_, rfl⟩
  obtain ⟨hoff, hcap, hfits, htrue, htake⟩ := Window.update_ok hw
  have hfresh : ∀ (d : Disk) (s : Nat), (Window.create (l.offset id + nodeHeader) (payloadCapacity l)).TrueTo d s :=
    fun _ _ h => by cases h
  -- every cell is created dirty, so each is true to any store
  have hcell : ∀ (off w : Nat) (d : Disk) (s : Nat), (Cell.create off w 0).TrueTo d s := fun _ _ _ _ h => by cases h
  have hlenv : ((Cell.create (l.offset id + 26) 4 0).set bs.length).value = bs.length := Cell.value_set _ hlt
  refine ⟨⟨id, Cell.create (l.offset id) 8 0, Cell.create (l.offset id + 8) 8 0, Cell.create (l.offset id + 16) 1 0,
    Cell.create (l.offset id + 17) 8 0, Cell.create (l.offset id + 25) 1 0,
    (Cell.create (l.offset id + 26) 4 0).set bs.length, w⟩, ?_, fun d s => ?_, ?_, rfl, by simp [Cell.create],
    by simp [Cell.create], by simp [Cell.create], by simp [Cell.create], by simp [Cell.create]⟩
  · unfold NodeSlot.create NodeSlot.setData
    dsimp only
    rw [hw]
    rfl
  · exact ⟨⟨rfl, rfl, rfl, rfl, rfl, rfl, rfl, rfl, rfl, rfl, rfl, by simp [Cell.create], by simp [Cell.create],
      hoff, hcap⟩, Cell.fits_create _ _ _, Cell.fits_create _ _ _, Cell.fits_create _ _ _, Cell.fits_create _ _ _,
      Cell.fits_create _ _ _, Cell.fits_set _ _, hfits (Window.fits_create _ _), hcell _ _ d s, hcell _ _ d s,
      hcell _ _ d s, hcell _ _ d s, hcell _ _ d s, (hcell _ _ d s).set _, htrue d s (hfresh d s)⟩
  · simp only [NodeSlot.data, hlenv, hcap, Window.create, Nat.min_eq_left hlen]
    exact htake (Window.fits_create _ _)

/-- Setting a payload that fits keeps a slot sound with its links, and the slot then holds the
payload. -/
theorem NodeSlot.Sound.setData {l : Layout} {d : Disk} {s id : Nat} {b : NodeSlot} (h : b.Sound l d s id)
    {bs : List UInt8} (hlen : bs.length ≤ NodeSlot.payloadCapacity l) (hlt : bs.length < Nat.pow 256 4) :
    ∃ b', b.setData bs = .ok b' ∧ b'.Sound l d s id ∧ b'.data = bs ∧ b'.parent = b.parent ∧ b'.left = b.left ∧
      b'.right = b.right ∧ b'.leftDepth = b.leftDepth ∧ b'.rightDepth = b.rightDepth := by
  obtain ⟨w, hw⟩ : ∃ w, b.payload.update bs = .ok w := by
    unfold Window.update
    rw [if_neg (by rw [h.payload_capacity]; omega)]
    split
    · exact ⟨_, rfl⟩
    · exact ⟨_, rfl⟩
  obtain ⟨hoff, hcap, hfits, htrue, htake⟩ := Window.update_ok hw
  have hlenv : (b.len.set bs.length).value = bs.length := Cell.value_set _ (by rw [h.len_width]; exact hlt)
  refine ⟨{ b with payload := w, len := b.len.set bs.length }, ?_, { h with
      toShaped := { h.toShaped with
        len_offset := by rw [Cell.offset_set]; exact h.len_offset
        len_width := by rw [Cell.width_set]; exact h.len_width
        payload_offset := hoff.trans h.payload_offset
        payload_capacity := hcap.trans h.payload_capacity }
      len_fits := Cell.fits_set _ _
      payload_fits := hfits h.payload_fits
      len_trueTo := h.len_trueTo.set _
      payload_trueTo := htrue d s h.payload_trueTo }, ?_, rfl, rfl, rfl, rfl, rfl⟩
  · unfold NodeSlot.setData
    rw [hw]
    rfl
  · simp only [NodeSlot.data, hlenv, hcap, h.payload_capacity, Nat.min_eq_left hlen]
    exact htake h.payload_fits

end ColumnDb.Slot

namespace ColumnDb.Tree

open ColumnDb.Slot ColumnDb.Disk IdTree

/-! ## Rows in value order -/

/-- Puts a row right after the last row whose value is not above its own: rows of equal values
keep the order in which they came. -/
def insertRow (row : Nat × Value) (R : List (Nat × Value)) : List (Nat × Value) :=
  insertAfterLast (fun r => r.2.compare row.2 != .gt) row R

theorem map_insertAfterLast {α β : Type} (f : α → β) (q : β → Bool) (a : α) :
    ∀ L : List α, (insertAfterLast (fun x => q (f x)) a L).map f = insertAfterLast q (f a) (L.map f)
  | [] => rfl
  | y :: ys => by
    have hany : (ys.map f).any q = ys.any fun x => q (f x) := List.any_map
    simp only [insertAfterLast, List.map_cons, hany]
    split_ifs <;> simp [map_insertAfterLast f q a ys]

/-- The rows of a list of ids with a new id hung where its value goes. -/
theorem rowsOf_insertAfterLast (val : Nat → Value) (a : Nat) (L : List Nat) :
    rowsOf val (insertAfterLast (fun y => !goesLeft val a y) a L) = insertRow (a, val a) (rowsOf val L) :=
  map_insertAfterLast (fun k => (k, val k)) (fun r => r.2.compare (val a) != .gt) a L

/-- Inserting adds one element and moves none of the others out. -/
theorem perm_insertAfterLast {α : Type} (p : α → Bool) (a : α) : ∀ L : List α, (insertAfterLast p a L).Perm (a :: L)
  | [] => .refl _
  | y :: ys => by
    unfold insertAfterLast
    split_ifs
    · exact ((perm_insertAfterLast p a ys).cons y).trans (.swap a y ys)
    · exact .swap a y ys
    · exact .refl _

section Order

variable {val : Nat → Value} {a : Nat}

/-- Along ascending values, once a value is above `a`'s every later one is. -/
theorem Ascending.goesLeft_mono {L : List Nat} (h : Ascending val L) (hk : ∀ k ∈ L, (val k).kind = (val a).kind) :
    L.Pairwise fun x y => goesLeft val a x = true → goesLeft val a y = true := by
  refine List.Pairwise.imp_of_mem ?_ h
  intro x y hx hy hxy hgx
  simp only [goesLeft, beq_iff_eq] at hgx ⊢
  exact Value.compare_gt_of_le_of_gt ((hk x hx).trans (hk y hy).symm) (hk y hy) hxy hgx

/-- Hanging `a` after the last value not above its own keeps the values ascending. -/
theorem Ascending.insertAfterLast : ∀ {L : List Nat}, Ascending val L → (∀ k ∈ L, (val k).kind = (val a).kind) →
    Ascending val (insertAfterLast (fun y => !goesLeft val a y) a L)
  | [], _, _ => List.pairwise_singleton _ _
  | y :: ys, h, hk => by
    obtain ⟨hy, hys⟩ := List.pairwise_cons.mp h
    have hky : (val y).kind = (val a).kind := hk y List.mem_cons_self
    have hkys : ∀ k ∈ ys, (val k).kind = (val a).kind := fun k hk' => hk k (List.mem_cons_of_mem y hk')
    -- a value above `a`'s is not below it
    have hle_of_gt : ∀ k, (val k).kind = (val a).kind → goesLeft val a k = true → (val a).compare (val k) ≠ .gt :=
      fun k hka hg => by
        simp only [goesLeft, beq_iff_eq] at hg
        rw [Value.compare_lt_of_gt hka hg]
        decide
    unfold ColumnDb.Tree.insertAfterLast
    split_ifs with hany hpy
    · -- `a` goes further on: `y` is below some value not above `a`'s
      obtain ⟨z, hz, hpz⟩ := List.any_eq_true.mp hany
      have hza : (val z).compare (val a) ≠ .gt := by simpa [goesLeft] using hpz
      refine List.pairwise_cons.mpr ⟨fun b hb => ?_, Ascending.insertAfterLast hys hkys⟩
      rcases List.mem_cons.mp ((perm_insertAfterLast _ _ _).mem_iff.mp hb) with rfl | hb'
      · exact Value.compare_le_trans (hky.trans (hkys z hz).symm) (hkys z hz) (hy z hz) hza
      · exact hy b hb'
    · -- `a` goes right after `y`
      have hya : (val y).compare (val a) ≠ .gt := by simpa [goesLeft] using hpy
      have hgys : ∀ k ∈ ys, goesLeft val a k = true := by simpa using hany
      refine List.pairwise_cons.mpr ⟨?_, List.pairwise_cons.mpr ⟨fun k hk' => hle_of_gt k (hkys k hk') (hgys k hk'), hys⟩⟩
      rintro b (_ | ⟨_, hb⟩)
      · exact hya
      · exact hy b hb
    · -- `a` goes first: every value is above its own
      have hgy : goesLeft val a y = true := by simpa using hpy
      have hgys : ∀ k ∈ ys, goesLeft val a k = true := by simpa using hany
      refine List.pairwise_cons.mpr ⟨?_, h⟩
      rintro b (_ | ⟨_, hb⟩)
      · exact hle_of_gt y hky hgy
      · exact hle_of_gt b (hkys b hb) (hgys b hb)

end Order

/-! ## Trees of allocated ids -/

/-- A balanced tree of at most `2 ^ 64` ids is at most 129 levels high. -/
theorem IdTree.Balanced.height_le {T : IdTree} (h : T.Balanced) (hsize : T.toList.length ≤ 2 ^ 64) :
    T.height ≤ 129 := by
  have hp := h.pow_height_le
  by_contra hge
  have : 2 ^ 65 ≤ 2 ^ (T.height / 2) := Nat.pow_le_pow_right (by norm_num) (by omega)
  have : (2 : Nat) ^ 64 < 2 ^ 65 := Nat.pow_lt_pow_right (by norm_num) (by norm_num)
  omega

/-- Distinct ids between 1 and `n` number at most `n`. -/
theorem length_le_of_nodup_pos_le {L : List Nat} {n : Nat} (hnd : L.Nodup) (h : ∀ k ∈ L, 0 < k ∧ k ≤ n) :
    L.length ≤ n := by
  rw [← List.toFinset_card_of_nodup hnd]
  calc L.toFinset.card ≤ (Finset.Icc 1 n).card :=
        Finset.card_le_card fun k hk => Finset.mem_Icc.mpr (h k (List.mem_toFinset.mp hk))
    _ = n := by simp

/-- The ids of a tree fit a link, so there are at most `2 ^ 64` of them. -/
theorem IdTree.Ids.length_le {T : IdTree} (h : T.Ids) : T.toList.length ≤ 2 ^ 64 :=
  length_le_of_nodup_lt h.nodup h.lt

/-- A heap holds a tree the same way under any values that agree on its ids. -/
theorem Rep.congr_val {H : Heap} {val val' : Nat → Value} {p : Nat} {T : IdTree} (h : Rep H val p T)
    (hval : ∀ k ∈ T.toList, val' k = val k) : Rep H val' p T := by
  induction T generalizing p with
  | nil => trivial
  | node l x r ihl ihr =>
    obtain ⟨hx, hv, hl, hr⟩ := h
    refine ⟨hx, by rw [hval x (by simp)]; exact hv, ihl hl fun k hk => hval k (by simp [hk]),
      ihr hr fun k hk => hval k (by simp [hk])⟩

theorem Ascending.congr {val val' : Nat → Value} {L : List Nat} (h : Ascending val L)
    (hval : ∀ k ∈ L, val' k = val k) : Ascending val' L :=
  List.Pairwise.imp_of_mem (fun ha hb hab => by rw [hval _ ha, hval _ hb]; exact hab) h

theorem rowsOf_congr {val val' : Nat → Value} {L : List Nat} (hval : ∀ k ∈ L, val' k = val k) :
    rowsOf val' L = rowsOf val L :=
  List.map_congr_left fun k hk => by rw [hval k hk]

/-! ## The heap around one id -/

namespace TreeFile

variable {d : Disk} {t : TreeFile}

/-- Two files that hold an id alike and find the same node there hold the same at that id. -/
theorem heap_congr_at {t' : TreeFile} {k : Nat} (hp : t'.present d k ↔ t.present d k)
    (hl : t'.look d k = t.look d k) : t'.heap d k = t.heap d k := by
  unfold heap
  by_cases h : t.present d k
  · rw [if_pos (hp.mpr h), if_pos h, hl]
  · rw [if_neg (mt hp.mp h), if_neg h]

/-- A new allocator changes what the heap holds only at ids whose allocation it changed. -/
theorem heap_withAllocator {a : Allocator} {k : Nat} (hk : a.isAllocated k = t.core.allocator.isAllocated k) :
    ({ t with core := { t.core with allocator := a } } : TreeFile).heap d k = t.heap d k :=
  heap_congr_at (by simp only [present, BlockFile.isAllocated, hk]; rfl) rfl

/-- Caching a node changes what the heap holds at its id only. -/
theorem heap_insert_of_ne (n : Node) {id k : Nat} (hk : k ≠ id) :
    ({ t with nodes := t.nodes.insert id n } : TreeFile).heap d k = t.heap d k :=
  heap_congr_at (by simp only [present, mem_insert_nat, hk, false_or]) (look_insert_of_ne t n hk)

/-- An allocated id whose node is cached holds that node. -/
theorem heap_insert_self (n : Node) {id : Nat} (ha : t.core.isAllocated id = true) :
    ({ t with nodes := t.nodes.insert id n } : TreeFile).heap d id = some n.view := by
  have hp : ({ t with nodes := t.nodes.insert id n } : TreeFile).present d id :=
    ⟨ha, .inl ((mem_insert_nat _ _ _ _).mpr (.inl rfl))⟩
  rw [heap_of_present hp, look_insert_self]
  rfl

theorem mem_erase_nat {β : Type} (m : Std.TreeMap Nat β) (a k : Nat) : k ∈ m.erase a ↔ k ≠ a ∧ k ∈ m := by
  rw [Std.TreeMap.mem_erase, Ne, compare_eq_iff_eq, eq_comm]

/-- Dropping a node from the cache changes what the heap holds at its id only. -/
theorem heap_erase_of_ne {id k : Nat} (hk : k ≠ id) :
    ({ t with nodes := t.nodes.erase id } : TreeFile).heap d k = t.heap d k :=
  heap_congr_at (by simp only [present, mem_erase_nat, ne_eq, hk, not_false_eq_true, true_and])
    (by simp only [look, FreeChain.getElem?_erase_nat, Ne.symm hk, if_false])

/-- Dropping a node from the cache keeps a file sound. -/
theorem Sound.erase (ht : t.Sound d) (id : Nat) : ({ t with nodes := t.nodes.erase id } : TreeFile).Sound d :=
  { ht with
    nodes := fun k n hn => by
      rw [FreeChain.getElem?_erase_nat] at hn
      split at hn
      · cases hn
      · exact ht.nodes k n hn
    decodes := fun k n hn => by
      rw [FreeChain.getElem?_erase_nat] at hn
      split at hn
      · cases hn
      · exact ht.decodes k n hn
    allocated := fun k hk => ht.allocated k ((mem_erase_nat _ _ _).mp hk).2
    stored := fun k n hn => by
      rw [FreeChain.getElem?_erase_nat] at hn
      split at hn
      · cases hn
      · exact ht.stored k n hn }

end TreeFile

/-! ## Files holding rows -/

/-- The values of the ids of a list, looked up among its rows. -/
theorem lookup_rowsOf (val : Nat → Value) (k : Nat) :
    ∀ L : List Nat, List.lookup k (rowsOf val L) = if k ∈ L then some (val k) else none
  | [] => rfl
  | y :: ys => by
    by_cases hky : k = y
    · subst hky
      simp [rowsOf]
    · have hb : (k == y) = false := beq_false_of_ne hky
      simp only [rowsOf, List.map_cons, List.lookup, hb, hky, List.mem_cons, false_or]
      exact lookup_rowsOf val k ys

theorem fst_rowsOf (val : Nat → Value) (L : List Nat) : (rowsOf val L).map Prod.fst = L := by
  rw [rowsOf, List.map_map]
  exact List.map_id' _

namespace TreeFile

variable {d : Disk} {t : TreeFile} {R : List (Nat × Value)}

/-- The heap of `t` over `d` holds the balanced tree `T` over exactly the allocated ids, each
with its value under `val`, of the file's kind and ascending in order. -/
structure Shape (d : Disk) (t : TreeFile) (T : IdTree) (val : Nat → Value) : Prop where
  rep : Rep (t.heap d) val 0 T
  root : t.root.value = T.rootId
  ids : T.Ids
  balanced : T.Balanced
  ascending : Ascending val T.toList
  kinds : ∀ k ∈ T.toList, (val k).kind = t.kind
  allocated : ∀ k, t.core.isAllocated k = true ↔ k ∈ T.toList

/-- A tree file over `d` holds the rows `R`: it is sound, open and true to its store, and holds a
tree whose ids in order, with their values, are `R`. -/
structure Rows (d : Disk) (t : TreeFile) (R : List (Nat × Value)) : Prop where
  sound : t.Sound d
  core : t.core.Holds d
  opened : t.core.disposed = false
  layout : t.core.layout.header = treeHeader ∧ nodeHeader < t.core.layout.capacity
  shape : ∃ (T : IdTree) (val : Nat → Value), t.Shape d T val ∧ R = rowsOf val T.toList

theorem Rows.lists (h : t.Rows d R) : t.Lists d R := by
  obtain ⟨T, val, hs, hR⟩ := h.shape
  exact ⟨h.sound, h.opened, T, val, hs.rep, hs.root, hs.ids.nodup, hs.ascending, hs.kinds, hR⟩

/-- A file holding rows allocates exactly their ids. -/
theorem Rows.isAllocated_iff (h : t.Rows d R) (k : Nat) : t.core.isAllocated k = true ↔ k ∈ R.map Prod.fst := by
  obtain ⟨T, val, hs, rfl⟩ := h.shape
  rw [fst_rowsOf]
  exact hs.allocated k

/-- A step that keeps the file part, the heap and the root keeps the rows. -/
theorem Rows.of_keeps {t' : TreeFile} (h : t.Rows d R) (hk : Keeps d t t') (hs : t'.Sound d)
    (hρ : t'.root.value = t.root.value) (hH : t'.heap d = t.heap d) : t'.Rows d R := by
  obtain ⟨T, val, hshape, hR⟩ := h.shape
  refine ⟨hs, hk.core ▸ h.core, hk.core ▸ h.opened, hk.core ▸ h.layout, T, val, ⟨hH ▸ hshape.rep,
    hρ.trans hshape.root, hshape.ids, hshape.balanced, hshape.ascending, hk.kind ▸ hshape.kinds, ?_⟩, hR⟩
  rw [hk.core]
  exact hshape.allocated

/-- Whether a file holding rows contains an id: whether a row has it. -/
theorem Rows.contains_eq (h : t.Rows d R) (k : Nat) : t.contains k = R.any (·.1 == k) := by
  rw [Bool.eq_iff_iff, contains, h.isAllocated_iff, List.any_eq_true, List.mem_map]
  simp

/-- Reading an id of a file that holds `R` answers the value `R` pairs with it, and keeps the
rows. -/
theorem Rows.get (h : t.Rows d R) (k : Nat) :
    ∃ t', TreeFile.get k (d, t) = .ok (List.lookup k R) (d, t') ∧ t'.Rows d R ∧ Keeps d t t' := by
  obtain ⟨T, val, hs, hR⟩ := h.shape
  have hopen := ensureOpen_runs (d := d) h.opened
  by_cases hk : t.core.isAllocated k = true
  · -- the node is in the heap: reading it answers its value
    have hkT := (hs.allocated k).mp hk
    obtain ⟨v, hv, hvk⟩ := hs.rep.mem_heap hkT
    obtain ⟨n, t', hrun, hkeep, hsound, hn, hρ, hH⟩ := node_yields h.sound (Nat.pos_iff_ne_zero.mp (hs.ids.pos k hkT)) hv
    refine ⟨t', ?_, h.of_keeps hkeep hsound hρ hH, hkeep⟩
    rw [hR, lookup_rowsOf, if_pos hkT, ← hvk, ← hn]
    unfold TreeFile.get
    rw [FileOp.bind_ok hopen]
    simp only [bind, EStateM.bind, FileOp.self, hk, Bool.not_true, Bool.false_eq_true, if_false]
    show EStateM.bind (node k) _ (d, t) = _
    simp only [EStateM.bind, show node k (d, t) = .ok n (d, t') from hrun]
    rfl
  · refine ⟨t, ?_, h, Keeps.refl t⟩
    have hkT : k ∉ T.toList := fun hkT => hk ((hs.allocated k).mpr hkT)
    rw [hR, lookup_rowsOf, if_neg hkT]
    unfold TreeFile.get
    rw [FileOp.bind_ok hopen]
    simp only [bind, EStateM.bind, FileOp.self, Bool.eq_false_iff.mpr hk, Bool.not_false, if_true]
    rfl

/-- Listing a file that holds `R` answers `R` and keeps the rows. -/
theorem Rows.all (h : t.Rows d R) : ∃ t', TreeFile.all (d, t) = .ok R (d, t') ∧ t'.Rows d R ∧ Keeps d t t' := by
  obtain ⟨T, val, hs, hR⟩ := h.shape
  obtain ⟨r, t', hrun, hk, hsound, hr, hρ, hH⟩ := all_yields h.sound h.opened hs.rep hs.root hs.ids.nodup
  exact ⟨t', by rw [hr, ← hR] at hrun; exact hrun, h.of_keeps hk hsound hρ hH, hk⟩

/-- Searching a file that holds `R` with an operand of its kind answers the rows of `R` whose value
satisfies the comparison, in order, and keeps the rows. -/
theorem Rows.range (h : t.Rows d R) (cmp : Comparison) {o : Value} (ho : o.kind = t.kind) :
    ∃ t', TreeFile.range cmp o (d, t) = .ok (R.filter fun row => cmp.accepts (row.2.compare o)) (d, t') ∧
      t'.Rows d R ∧ Keeps d t t' := by
  obtain ⟨T, val, hs, hR⟩ := h.shape
  obtain ⟨r, t', hrun, hk, hsound, hr, hρ, hH⟩ :=
    range_yields h.sound h.opened hs.rep hs.root hs.ids.nodup hs.ascending cmp fun k hk => (hs.kinds k hk).trans ho.symm
  have hrows : r = R.filter fun row => cmp.accepts (row.2.compare o) := by
    rw [hr, hR, rowsOf, rowsOf, List.filter_map]
    rfl
  exact ⟨t', by rw [hrows] at hrun; exact hrun, h.of_keeps hk hsound hρ hH, hk⟩

/-- Each row a file holds is the one its id looks up: the ids of the rows are distinct. -/
theorem Rows.lookup_of_mem (h : t.Rows d R) {p : Nat × Value} (hp : p ∈ R) : R.lookup p.1 = some p.2 := by
  obtain ⟨T, val, -, rfl⟩ := h.shape
  obtain ⟨k, hk, rfl⟩ := List.mem_map.mp hp
  rw [lookup_rowsOf, if_pos hk]

/-! ## Adding a row -/

/-- A value whose encoding fits a node's payload passes the check, changing nothing. -/
theorem checkFits_ok {v : Value} (hlen : v.encode.length ≤ NodeSlot.payloadCapacity t.core.layout) :
    checkFits v (d, t) = .ok () (d, t) := by
  simp only [checkFits, bind, EStateM.bind, FileOp.self, gt_iff_lt, Nat.not_lt.mpr hlen, if_false]
  rfl

/-- A value whose encoding does not fit a node's payload is refused, and nothing changes. -/
theorem checkFits_tooLarge {v : Value} (hlen : NodeSlot.payloadCapacity t.core.layout < v.encode.length) :
    checkFits v (d, t) =
      .error (.slot (.tooLarge v.encode.length (NodeSlot.payloadCapacity t.core.layout))) (d, t) := by
  simp only [checkFits, bind, EStateM.bind, FileOp.self, gt_iff_lt, hlen, if_true]
  rfl

/-- A new allocator that allocates every cached id keeps a file sound. -/
theorem Sound.withAllocator (ht : t.Sound d) {a : Allocator} (hcached : ∀ k ∈ t.nodes, a.isAllocated k = true) :
    ({ t with core := { t.core with allocator := a } } : TreeFile).Sound d :=
  { ht with allocated := hcached }

/-- What `add` needs of its claim: it answers an id not allocated before, and leaves an
allocator true to the store that allocates exactly that id more. -/
structure Claims (d : Disk) (t : TreeFile) (id? : Option Nat) (x : Nat) (a : Allocator) : Prop where
  runs : (onCore (BlockFile.claim id?) : TreeOp Nat) (d, t) = .ok x (d, { t with core := { t.core with allocator := a } })
  holds : a.Holds t.core.layout d t.core.sid
  fresh : ¬ t.core.allocator.pool.Allocated x
  allocated : ∀ k, a.pool.Allocated k ↔ t.core.allocator.pool.Allocated k ∨ k = x

/-- A slot's payload has fewer bytes than a four-byte length counts. -/
theorem Rows.payloadCapacity_lt (h : t.Rows d R) : NodeSlot.payloadCapacity t.core.layout < Nat.pow 256 4 := by
  have hfits : t.core.capacity.value < Nat.pow 256 t.core.capacity.width := h.core.fits
  rw [h.core.value_eq, h.core.width_eq] at hfits
  unfold NodeSlot.payloadCapacity
  omega

/-- Distinct allocated ids number at most `latest`, so a tree of them is no higher. -/
theorem height_le_latest {T : IdTree} {a : Allocator} (hnd : T.toList.Nodup)
    (h : ∀ k ∈ T.toList, a.pool.Allocated k) : T.height ≤ a.latest.value :=
  (height_le_length T).trans (length_le_of_nodup_pos_le hnd fun k hk => ⟨(h k hk).1, (h k hk).2.1⟩)

section Hang

variable {T : IdTree} {val : Nat → Value} {x : Nat} {v : Value}

/-- Hanging a new id `x` with a value `v` of the kind of `T`'s values into `T`: the ids, the
balance and the order carry over to the tree with the new leaf, whose rows are `T`'s with
`(x, v)` inserted. -/
theorem hang_ids (hids : T.Ids) (hbal : T.Balanced) (hasc : Ascending val T.toList)
    (hkinds : ∀ k ∈ T.toList, (val k).kind = v.kind) (hxT : x ∉ T.toList) (hx0 : 0 < x) (hxlt : x < Nat.pow 256 8) :
    (T.hang (goesLeft (Function.update val x v) x) x).Ids ∧ (T.hang (goesLeft (Function.update val x v) x) x).Balanced ∧
      Ascending (Function.update val x v) (T.hang (goesLeft (Function.update val x v) x) x).toList ∧
      (T.hang (goesLeft (Function.update val x v) x) x).toList.Perm (x :: T.toList) ∧
      rowsOf (Function.update val x v) (T.hang (goesLeft (Function.update val x v) x) x).toList =
        insertRow (x, v) (rowsOf val T.toList) := by
  -- on the old ids the new values are the old ones
  have hval : ∀ k ∈ T.toList, Function.update val x v k = val k :=
    fun k hk => Function.update_of_ne (fun h : k = x => hxT (h ▸ hk)) _ _
  have hkinds' : ∀ k ∈ T.toList, (Function.update val x v k).kind = (Function.update val x v x).kind := by
    intro k hk
    rw [hval k hk, Function.update_self, hkinds k hk]
  have hasc' := hasc.congr hval
  have hlist : (T.hang (goesLeft (Function.update val x v) x) x).toList =
      insertAfterLast (fun y => !goesLeft (Function.update val x v) x y) x T.toList :=
    IdTree.toList_hang (hasc'.goesLeft_mono hkinds') x
  have hperm : (T.hang (goesLeft (Function.update val x v) x) x).toList.Perm (x :: T.toList) :=
    hlist ▸ perm_insertAfterLast _ _ _
  refine ⟨⟨hperm.nodup_iff.mpr (List.nodup_cons.mpr ⟨hxT, hids.nodup⟩), fun k hk => ?_, fun k hk => ?_⟩,
    (IdTree.balanced_hang hbal _ x).1, hlist ▸ hasc'.insertAfterLast hkinds', hperm, ?_⟩
  · rcases List.mem_cons.mp (hperm.mem_iff.mp hk) with rfl | hk
    · exact hx0
    · exact hids.pos k hk
  · rcases List.mem_cons.mp (hperm.mem_iff.mp hk) with rfl | hk
    · exact hxlt
    · exact hids.lt k hk
  · rw [hlist, rowsOf_insertAfterLast, Function.update_self, rowsOf_congr hval]

/-- Attaching a cached leaf `x` holding `v` to a file whose heap holds `T` over every other
allocated id: the file then holds the tree with `x` hung where `v` goes. -/
theorem attach_leaf (hs : t.Sound d) (hrep : Rep (t.heap d) val 0 T) (hroot : t.root.value = T.rootId)
    (hids : T.Ids) (hbal : T.Balanced) (hasc : Ascending val T.toList) (hkinds : ∀ k ∈ T.toList, (val k).kind = t.kind)
    (hkind : v.kind = t.kind) (hxT : x ∉ T.toList) (hxlt : x < Nat.pow 256 8)
    (halloc : ∀ k, t.core.isAllocated k = true ↔ k ∈ T.toList ∨ k = x)
    (hxv : t.heap d x = some ⟨0, 0, 0, 0, 0, v⟩) :
    ∃ t', Runs (attach x) d t () t' ∧ Keeps d t t' ∧ t'.Sound d ∧ ∃ T', t'.Shape d T' (Function.update val x v) ∧
      rowsOf (Function.update val x v) T'.toList = insertRow (x, v) (rowsOf val T.toList) := by
  have hval : ∀ k ∈ T.toList, Function.update val x v k = val k :=
    fun k hk => Function.update_of_ne (fun e : k = x => hxT (e ▸ hk)) _ _
  have hpool : ∀ k, t.core.allocator.pool.Allocated k ↔ k ∈ T.toList ∨ k = x := fun k => by
    rw [← Allocator.isAllocated_iff]
    exact halloc k
  have hx0 : 0 < x := ((hpool x).mpr (.inr rfl)).1
  have hrep' := hrep.congr_val hval
  -- the walk down fits the fuel: the tree is short and every node lies in the cache or the store
  have hlatest : T.height ≤ t.core.latest := height_le_latest hids.nodup fun k hk => (hpool k).mpr (.inl hk)
  have hbound := (height_le_length T).trans
    (Nat.le_of_lt (Rep.length_lt_linkBound hs hrep' (IdTree.rootId_lt hids.lt) hids.nodup))
  have hh := hbal.height_le hids.length_le
  obtain ⟨r, t', hrun, hk, hsound, hrep'', hρ''⟩ := attach_yields hs hrep' hroot hids
    (by rw [Function.update_self]; exact hxv) hxT (Nat.pos_iff_ne_zero.mp hx0) hxlt hlatest hbound (by omega)
  obtain ⟨hids', hbal', hasc', hperm', hrows'⟩ :=
    hang_ids hids hbal hasc (fun k hk => (hkinds k hk).trans hkind.symm) hxT hx0 hxlt
  refine ⟨t', hrun, hk, hsound, _, ⟨hrep'', hρ'', hids', hbal', hasc', fun k hk' => ?_, fun k => ?_⟩, hrows'⟩
  · rw [hk.kind]
    rcases List.mem_cons.mp (hperm'.mem_iff.mp hk') with rfl | hk'
    · rw [Function.update_self]
      exact hkind
    · rw [hval k hk']
      exact hkinds k hk'
  · rw [hk.core, hperm'.mem_iff, List.mem_cons, or_comm]
    exact halloc k

end Hang

/-- Adding a value of the file's kind that fits under an id the claim hands out hangs the row
where its value goes: the file then holds `insertRow (x, v) R`, with the claim's allocator. -/
theorem Rows.add_of_claims (h : t.Rows d R) {v : Value} (hkind : v.kind = t.kind) (hfits : v.Fits)
    (hlen : v.encode.length ≤ NodeSlot.payloadCapacity t.core.layout) {id? : Option Nat} {x : Nat}
    {a : Allocator} (hc : Claims d t id? x a) :
    ∃ t', TreeFile.add v id? (d, t) = .ok x (d, t') ∧ t'.Rows d (insertRow (x, v) R) ∧
      t'.core = { t.core with allocator := a } ∧ t'.kind = t.kind := by
  obtain ⟨T, val, hs, hR⟩ := h.shape
  -- the claim keeps every allocated id and adds `x`, which no node holds yet
  have halloc : ∀ k, a.isAllocated k = true ↔ k ∈ T.toList ∨ k = x := fun k => by
    rw [Allocator.isAllocated_iff, hc.allocated, ← Allocator.isAllocated_iff, ← hs.allocated]
    rfl
  have hxT : x ∉ T.toList := fun hxT => hc.fresh ((Allocator.isAllocated_iff _ _).mp ((hs.allocated x).mpr hxT))
  have hxlt : x < Nat.pow 256 8 := Nat.lt_of_le_of_lt ((hc.allocated x).mpr (.inr rfl)).2.1 hc.holds.latest_lt
  -- the node for `x`: a new slot holding the value's encoding, cached
  obtain ⟨slot, hcreate, hslot, hdata, hdirty, h0p, h0l, h0r, h0ld, h0rd⟩ :=
    NodeSlot.create_ok (l := t.core.layout) x hlen (Nat.lt_of_le_of_lt hlen h.payloadCapacity_lt)
  set t₁ : TreeFile := { t with core := { t.core with allocator := a } } with ht₁
  set t₂ : TreeFile := { t₁ with nodes := t₁.nodes.insert x ⟨slot, v⟩ } with ht₂
  have hs₁ : t₁.Sound d :=
    h.sound.withAllocator fun k hk => (halloc k).mpr (.inl ((hs.allocated k).mp (h.sound.allocated k hk)))
  have hs₂ : t₂.Sound d := hs₁.insert (n := ⟨slot, v⟩) (hslot d _)
    (by rw [hdata]; exact hkind ▸ Value.decode_encode hfits) ((halloc x).mpr (.inr rfl)) (.inl hdirty)
  have hheap : ∀ k ∈ T.toList, t₂.heap d k = t.heap d k := fun k hk =>
    (heap_insert_of_ne (t := t₁) _ fun e : k = x => hxT (e ▸ hk)).trans (heap_withAllocator
      (Bool.eq_iff_iff.mpr ⟨fun _ => (hs.allocated k).mpr hk, fun _ => (halloc k).mpr (.inl hk)⟩))
  have hxv : t₂.heap d x = some ⟨0, 0, 0, 0, 0, v⟩ := by
    rw [heap_insert_self (t := t₁) ⟨slot, v⟩ ((halloc x).mpr (.inr rfl))]
    simp only [Node.view, h0p, h0l, h0r, h0ld, h0rd]
  obtain ⟨t', hrun, hk, hsound, T', hshape', hrows'⟩ := attach_leaf hs₂ (hs.rep.congr hheap) hs.root hs.ids
    hs.balanced hs.ascending hs.kinds hkind hxT hxlt halloc hxv
  have hcore : t'.core = { t.core with allocator := a } := hk.core
  refine ⟨t', ?_, ⟨hsound, by rw [hcore]; exact h.core.withAllocator hc.holds, by rw [hcore]; exact h.opened,
    by rw [hcore]; exact h.layout, T', _, hshape', by rw [hrows', hR]⟩, hcore, hk.kind⟩
  unfold TreeFile.add
  rw [FileOp.bind_ok (ensureOpen_runs h.opened), FileOp.bind_ok (checkFits_ok hlen), FileOp.bind_ok hc.runs]
  show EStateM.bind FileOp.self _ (d, _) = _
  simp only [EStateM.bind, FileOp.self]
  simp only [hcreate]
  rw [FileOp.bind_ok (Runs.modify _), FileOp.bind_ok hrun]
  rfl

/-- Claiming a given id takes it, or fails with `idInUse` and changes nothing. -/
theorem onCore_claim_some (x : Nat) : (onCore (BlockFile.claim (some x)) : TreeOp Nat) (d, t) =
    match t.core.allocator.tryUse d t.core.sid x with
    | some a => .ok x (d, { t with core := { t.core with allocator := a } })
    | none => .error (.idInUse x) (d, t) := by
  cases ht : t.core.allocator.tryUse d t.core.sid x with
  | none => simp only [onCore, FileOp.zoom, BlockFile.claim_some_eq, ht]
  | some a => simp only [onCore, FileOp.zoom, BlockFile.claim_some_eq, ht]

/-- With room for one more id when none is free, handing out the next free id is a claim of the
pool's next id. -/
theorem Rows.claims_none (h : t.Rows d R)
    (hroom : t.core.allocator.pool.free = [] → t.core.allocator.pool.latest + 1 < Nat.pow 256 8) :
    Claims d t none t.core.allocator.pool.next.1 (t.core.allocator.nextFreeId d t.core.sid).2 := by
  obtain ⟨hpair, hholds⟩ := h.core.allocator.nextFreeId hroom
  have hv := h.core.allocator.valid
  have hid : (t.core.allocator.nextFreeId d t.core.sid).1 = t.core.allocator.pool.next.1 := congrArg Prod.fst hpair
  have hpool : (t.core.allocator.nextFreeId d t.core.sid).2.pool = t.core.allocator.pool.next.2 :=
    congrArg Prod.snd hpair
  refine ⟨by rw [← hid]; rfl, hholds, hv.next.2.2.1, fun k => ?_⟩
  rw [hpool]
  exact IdPool.allocated_next hv k

/-- Taking a given id that the allocator can take is a claim of that id. -/
theorem Rows.claims_some (h : t.Rows d R) {x : Nat} (hx : x < Nat.pow 256 8) {a : Allocator}
    (ha : t.core.allocator.tryUse d t.core.sid x = some a) : Claims d t (some x) x a := by
  obtain ⟨hmap, hkeep⟩ := h.core.allocator.tryUse hx
  have hpool : t.core.allocator.pool.claim x = some a.pool := by rw [← hmap, ha, Option.map_some]
  refine ⟨?_, hkeep a ha, fun hxa => ?_, IdPool.allocated_claim h.core.allocator.valid hpool⟩
  · rw [onCore_claim_some, ha]
  · have := (IdPool.claim_eq_none x).mpr (.inr hxa)
    rw [hpool] at this
    cases this

/-- A given id the allocator cannot take is refused, and nothing changes. -/
theorem Rows.add_taken (h : t.Rows d R) {v : Value} (hlen : v.encode.length ≤ NodeSlot.payloadCapacity t.core.layout)
    {x : Nat} (ha : t.core.allocator.tryUse d t.core.sid x = none) :
    TreeFile.add v (some x) (d, t) = .error (.idInUse x) (d, t) := by
  unfold TreeFile.add
  rw [FileOp.bind_ok (ensureOpen_runs h.opened), FileOp.bind_ok (checkFits_ok hlen)]
  show EStateM.bind (onCore (BlockFile.claim (some x))) _ (d, t) = _
  have hclaim : (onCore (BlockFile.claim (some x)) : TreeOp Nat) (d, t) = .error (.idInUse x) (d, t) := by
    rw [onCore_claim_some, ha]
  simp only [EStateM.bind, hclaim]

/-- A value whose encoding does not fit a node is refused, and nothing changes. -/
theorem Rows.add_tooLarge (h : t.Rows d R) {v : Value} (hlen : NodeSlot.payloadCapacity t.core.layout < v.encode.length)
    (id? : Option Nat) :
    TreeFile.add v id? (d, t) =
      .error (.slot (.tooLarge v.encode.length (NodeSlot.payloadCapacity t.core.layout))) (d, t) := by
  unfold TreeFile.add
  rw [FileOp.bind_ok (ensureOpen_runs h.opened), FileOp.bind_error (checkFits_tooLarge hlen)]

/-! ## Deleting a row -/

theorem any_rowsOf (val : Nat → Value) (L : List Nat) (x : Nat) : (rowsOf val L).any (·.1 == x) = decide (x ∈ L) := by
  rw [Bool.eq_iff_iff]
  simp [rowsOf]

section Remove

variable {C : Ctx} {a b : IdTree} {x : Nat} {val : Nat → Value}

/-- Taking `x` out of the tree of a shape: the ids, the balance and the order carry over to the
tree left, and the rows lose the row of `x`. -/
theorem Shape.removeAt_ids (hs : t.Shape d (C.plug (IdTree.node a x b)) val) :
    (C.removeAt a x b).Ids ∧ (C.removeAt a x b).Balanced ∧ Ascending val (C.removeAt a x b).toList ∧
      (C.removeAt a x b).toList = (C.plug (IdTree.node a x b)).toList.erase x ∧
      rowsOf val (C.removeAt a x b).toList = (rowsOf val (C.plug (IdTree.node a x b)).toList).filter (·.1 != x) := by
  have hlist := Ctx.toList_removeAt C a x b hs.ids.nodup
  have hx : x ∈ (C.plug (IdTree.node a x b)).toList := by rw [Ctx.toList_plug]; simp
  refine ⟨hs.ids.of_perm_cons (hlist ▸ List.perm_cons_erase hx), (Ctx.balanced_removeAt C a x b hs.balanced).1,
    hlist ▸ List.Pairwise.sublist List.erase_sublist hs.ascending, hlist, ?_⟩
  rw [hlist, hs.ids.nodup.erase_eq_filter, rowsOf, rowsOf, List.filter_map]
  rfl

end Remove

/-- Deleting an id from a file that holds `R` answers whether a row has it, and leaves the rows
without it, the id released. -/
theorem Rows.delete (h : t.Rows d R) (x : Nat) :
    ∃ t', TreeFile.delete x (d, t) = .ok (R.any (·.1 == x)) (d, t') ∧ t'.Rows d (R.filter (·.1 != x)) ∧
      t'.core = { t.core with allocator := t.core.allocator.release d t.core.sid x } ∧ t'.kind = t.kind := by
  obtain ⟨T, val, hs, hR⟩ := h.shape
  have hopen := ensureOpen_runs (d := d) h.opened
  by_cases hx : t.core.isAllocated x = true
  · -- `x` is a node of the tree: take it out, drop it from the cache, release its id
    obtain ⟨C, a, b, hplug⟩ := IdTree.exists_plug_of_mem .top ((hs.allocated x).mp hx)
    change T = C.plug (IdTree.node a x b) at hplug
    subst hplug
    obtain ⟨hids', hbal', hasc', hlist', hrows'⟩ := hs.removeAt_ids
    have hxT' : x ∉ (C.removeAt a x b).toList := by
      rw [hlist']
      exact hs.ids.nodup.not_mem_erase
    have hh := hs.balanced.height_le hs.ids.length_le
    have hbound := (height_le_length _).trans
      (Nat.le_of_lt (Rep.length_lt_linkBound h.sound hs.rep (IdTree.rootId_lt hs.ids.lt) hs.ids.nodup))
    obtain ⟨r, t₁, hrun₁, hk₁, hs₁, hrep₁, hρ₁, -⟩ := detach_yields h.sound hs.rep hs.root hs.ids (by omega) hbound
    set t₂ : TreeFile := { t₁ with nodes := t₁.nodes.erase x } with ht₂
    set t₃ : TreeFile := { t₂ with core := { t₂.core with allocator := t₂.core.allocator.release d t₂.core.sid x } }
      with ht₃
    have hcore₂ : t₂.core = t.core := hk₁.core
    obtain ⟨hpool, hholds⟩ := h.core.allocator.release x
    have halloc : ∀ k, (t.core.allocator.release d t.core.sid x).isAllocated k = true ↔
        t.core.isAllocated k = true ∧ k ≠ x := fun k => by
      rw [Allocator.isAllocated_iff, hpool, IdPool.allocated_release, ← Allocator.isAllocated_iff]
      rfl
    have hcore₃ : t₃.core = { t.core with allocator := t.core.allocator.release d t.core.sid x } := by
      rw [ht₃, hcore₂]
    have hs₃ : t₃.Sound d := (hs₁.erase x).withAllocator fun k hk => by
      obtain ⟨hkx, hk⟩ := (mem_erase_nat _ _ _).mp hk
      rw [hcore₂]
      exact (halloc k).mpr ⟨hk₁.core ▸ hs₁.allocated k hk, hkx⟩
    -- every id left is neither `x` nor changed in the heap
    have hheap : ∀ k ∈ (C.removeAt a x b).toList, t₃.heap d k = t₁.heap d k := fun k hk => by
      have hkx : k ≠ x := fun e => hxT' (e ▸ hk)
      refine (heap_withAllocator (t := t₂) (Bool.eq_iff_iff.mpr ?_)).trans (heap_erase_of_ne hkx)
      rw [hcore₂, halloc k]
      exact ⟨fun hk' => hk'.1, fun hk' => ⟨hk', hkx⟩⟩
    refine ⟨t₃, ?_, ⟨hs₃, by rw [hcore₃]; exact h.core.withAllocator hholds, by rw [hcore₃]; exact h.opened,
      by rw [hcore₃]; exact h.layout, _, val, ⟨hrep₁.congr hheap, hρ₁, hids', hbal', hasc', fun k hk => ?_,
      fun k => ?_⟩, by rw [hR, hrows']⟩, hcore₃, hk₁.kind⟩
    · unfold TreeFile.delete
      rw [FileOp.bind_ok hopen]
      show EStateM.bind FileOp.self _ (d, t) = _
      simp only [EStateM.bind, FileOp.self, hx, Bool.not_true, Bool.false_eq_true, if_false]
      rw [FileOp.bind_ok hrun₁, FileOp.bind_ok (Runs.modify _)]
      show EStateM.bind (onCore (BlockFile.release x)) _ (d, t₂) = _
      simp only [EStateM.bind]
      rw [hR, any_rowsOf, decide_eq_true ((hs.allocated x).mp hx)]
      rfl
    · rw [hk₁.kind]
      rw [hlist'] at hk
      exact hs.kinds k (List.mem_of_mem_erase hk)
    · rw [hcore₃, show ({ t.core with allocator := t.core.allocator.release d t.core.sid x } : BlockFile).isAllocated k =
        (t.core.allocator.release d t.core.sid x).isAllocated k from rfl, halloc k, hs.allocated, hlist',
        hs.ids.nodup.mem_erase_iff]
      exact and_comm
  · -- `x` is no row: nothing changes
    have hxT : x ∉ T.toList := fun hxT => hx ((hs.allocated x).mpr hxT)
    have hrel : t.core.allocator.release d t.core.sid x = t.core.allocator := by
      simp only [Allocator.release, show t.core.allocator.isAllocated x = false from Bool.eq_false_iff.mpr hx,
        Bool.false_eq_true, if_false]
    refine ⟨t, ?_, ?_, by rw [hrel], rfl⟩
    · unfold TreeFile.delete
      rw [FileOp.bind_ok hopen]
      show EStateM.bind FileOp.self _ (d, t) = _
      simp only [EStateM.bind, FileOp.self, Bool.eq_false_iff.mpr hx, Bool.not_false, if_true]
      rw [hR, any_rowsOf, decide_eq_false hxT]
      rfl
    · have hfilter : R.filter (·.1 != x) = R := by
        rw [List.filter_eq_self, hR]
        intro r hr
        obtain ⟨k, hk, rfl⟩ := List.mem_map.mp hr
        exact bne_iff_ne.mpr fun e => hxT (e ▸ hk)
      rw [hfilter]
      exact h

/-! ## Updating a row -/

/-- Giving a row of a file that holds `R` a new value of the file's kind that fits moves the row
to where the new value goes: the file then holds `R` without the row, with `(x, v)` inserted. -/
theorem Rows.update_live (h : t.Rows d R) {x : Nat} (hx : t.core.isAllocated x = true) {v : Value}
    (hkind : v.kind = t.kind) (hfits : v.Fits) (hlen : v.encode.length ≤ NodeSlot.payloadCapacity t.core.layout) :
    ∃ t', TreeFile.update x v (d, t) = .ok () (d, t') ∧ t'.Rows d (insertRow (x, v) (R.filter (·.1 != x))) ∧
      t'.core = t.core ∧ t'.kind = t.kind := by
  obtain ⟨T, val, hs, hR⟩ := h.shape
  have hxT := (hs.allocated x).mp hx
  obtain ⟨C, a, b, hplug⟩ := IdTree.exists_plug_of_mem .top hxT
  change T = C.plug (IdTree.node a x b) at hplug
  subst hplug
  obtain ⟨hids', hbal', hasc', hlist', hrows'⟩ := hs.removeAt_ids
  have hxT' : x ∉ (C.removeAt a x b).toList := by
    rw [hlist']
    exact hs.ids.nodup.not_mem_erase
  have hh := hs.balanced.height_le hs.ids.length_le
  have hbound := (height_le_length _).trans
    (Nat.le_of_lt (Rep.length_lt_linkBound h.sound hs.rep (IdTree.rootId_lt hs.ids.lt) hs.ids.nodup))
  -- take the node out: it stays allocated and cached, with no links
  obtain ⟨r, t₁, hrun₁, hk₁, hs₁, hrep₁, hρ₁, hx₁⟩ := detach_yields h.sound hs.rep hs.root hs.ids (by omega) hbound
  obtain ⟨hp₁, n, hn, hnv⟩ := exists_look_of_heap hx₁
  obtain ⟨t₂, hrun₂, hk₂, hroot₂, hlook₂, hpres₂, hcached₂, hs₂⟩ :=
    node_runs hs₁ (Nat.pos_iff_ne_zero.mp (hs.ids.pos x hxT)) hp₁ hn
  have hcore₂ : t₂.core = t.core := hk₂.core.trans hk₁.core
  have hkind₂ : t₂.kind = t.kind := hk₂.kind.trans hk₁.kind
  -- its slot takes the new value
  obtain ⟨slot, hset, hslot, hdata, hpar, hl, hr, hld, hrd⟩ := (hs₂.nodes x n hcached₂).setData
    (by rw [hcore₂]; exact hlen) (Nat.lt_of_le_of_lt hlen h.payloadCapacity_lt)
  set t₃ : TreeFile := { t₂ with nodes := t₂.nodes.insert x ⟨slot, v⟩ } with ht₃
  have hs₃ : t₃.Sound d := hs₂.insert (n := ⟨slot, v⟩) hslot
    (by rw [hdata, hkind₂]; exact hkind ▸ Value.decode_encode hfits) (by rw [hcore₂]; exact hx)
    (by rw [hpar]; exact hs₂.stored x n hcached₂)
  have hheap : ∀ k ∈ (C.removeAt a x b).toList, t₃.heap d k = t₁.heap d k := fun k hk =>
    (heap_insert_of_ne (t := t₂) _ fun e : k = x => hxT' (e ▸ hk)).trans (congrFun (heap_eq_of hpres₂ hlook₂) k)
  have hxv : t₃.heap d x = some ⟨0, 0, 0, 0, 0, v⟩ := by
    simp only [Node.view, NodeView.mk.injEq] at hnv
    rw [heap_insert_self (t := t₂) ⟨slot, v⟩ (by rw [hcore₂]; exact hx)]
    simp only [Node.view, hpar, hl, hr, hld, hrd, hnv.1, hnv.2.1, hnv.2.2.1, hnv.2.2.2.1, hnv.2.2.2.2.1]
  have halloc : ∀ k, t₃.core.isAllocated k = true ↔ k ∈ (C.removeAt a x b).toList ∨ k = x := fun k => by
    rw [show t₃.core = t.core from hcore₂, hs.allocated, hlist', hs.ids.nodup.mem_erase_iff]
    by_cases hkx : k = x
    · simp [hkx, hxT]
    · simp [hkx]
  obtain ⟨t', hrun₃, hk₃, hsound, T'', hshape'', hrows''⟩ := attach_leaf hs₃ (hrep₁.congr hheap)
    (hroot₂ ▸ hρ₁) hids' hbal' hasc' (fun k hk => by
      rw [show t₃.kind = t.kind from hkind₂]
      rw [hlist'] at hk
      exact hs.kinds k (List.mem_of_mem_erase hk))
    (by rw [show t₃.kind = t.kind from hkind₂]; exact hkind) hxT' (hs.ids.lt x hxT) halloc hxv
  have hcore : t'.core = t.core := hk₃.core.trans hcore₂
  refine ⟨t', ?_, ⟨hsound, by rw [hcore]; exact h.core, by rw [hcore]; exact h.opened, by rw [hcore]; exact h.layout,
    T'', _, hshape'', by rw [hrows'', hrows', hR]⟩, hcore, hk₃.kind.trans hkind₂⟩
  unfold TreeFile.update
  rw [FileOp.bind_ok (ensureOpen_runs h.opened)]
  show EStateM.bind FileOp.self _ (d, t) = _
  simp only [EStateM.bind, FileOp.self, hx, Bool.not_true, Bool.false_eq_true, if_false]
  rw [FileOp.bind_ok (checkFits_ok hlen), FileOp.bind_ok hrun₁, FileOp.bind_ok hrun₂]
  simp only [hset]
  rw [FileOp.bind_ok (Runs.modify _)]
  exact hrun₃

/-- A new value for a live row that does not fit a node is refused, and nothing changes. -/
theorem Rows.update_tooLarge (h : t.Rows d R) {x : Nat} (hx : t.core.isAllocated x = true) {v : Value}
    (hlen : NodeSlot.payloadCapacity t.core.layout < v.encode.length) :
    TreeFile.update x v (d, t) =
      .error (.slot (.tooLarge v.encode.length (NodeSlot.payloadCapacity t.core.layout))) (d, t) := by
  unfold TreeFile.update
  rw [FileOp.bind_ok (ensureOpen_runs h.opened)]
  show EStateM.bind FileOp.self _ (d, t) = _
  simp only [EStateM.bind, FileOp.self, hx, Bool.not_true, Bool.false_eq_true, if_false]
  rw [FileOp.bind_error (checkFits_tooLarge hlen)]

/-- Updating an id no row has adds it. -/
theorem update_not_live (hopen : t.core.disposed = false) {x : Nat} (hx : t.core.isAllocated x = false)
    (v : Value) : TreeFile.update x v (d, t) = (discard (TreeFile.add v (some x)) : TreeOp Unit) (d, t) := by
  unfold TreeFile.update
  rw [FileOp.bind_ok (ensureOpen_runs hopen)]
  show EStateM.bind FileOp.self _ (d, t) = _
  simp only [EStateM.bind, FileOp.self, hx, Bool.not_false, if_true]

/-! ## Flushing -/

/-- A written-back file holds the rows it held. -/
theorem Rows.writtenBack {d' : Disk} {t' : TreeFile} (h : t.Rows d R) (hw : WrittenBack d t d' t') :
    t'.Rows d' R := by
  obtain ⟨T, val, hs, hR⟩ := h.shape
  -- every node of the tree is held, so the written-back file holds it the same way
  have hheap : ∀ k ∈ T.toList, t'.heap d' k = t.heap d k := fun k hk => by
    obtain ⟨v, hv, -⟩ := hs.rep.mem_heap hk
    exact hw.heap k (present_of_heap hv)
  refine ⟨hw.sound, hw.core, by rw [hw.disposed]; exact h.opened, by rw [hw.layout]; exact h.layout,
    T, val, ⟨hs.rep.congr hheap, hw.root.trans hs.root, hs.ids, hs.balanced, hs.ascending,
      by rw [hw.kind]; exact hs.kinds, fun k => ?_⟩, hR⟩
  rw [isAllocated_congr hw.pool k]
  exact hs.allocated k

/-- Flushing a file that holds `R` writes it back: over the new store it holds `R` still, with the
same pool, an empty cache and a clean root, and the store opens again as the flushed file part. -/
theorem Rows.flush (h : t.Rows d R) :
    ∃ d' t', TreeFile.flush (d, t) = .ok () (d', t') ∧ t'.Rows d' R ∧ WrittenBack d t d' t' ∧ t'.nodes = ∅ ∧
      t'.root.dirty = false ∧ t'.core.created = t.core.created ∧
      ∀ slotHeader, slotHeader < t.core.layout.capacity →
        BlockFile.open d' t.core.store t.core.label t.core.layout.header slotHeader t.core.layout.capacity =
          .ok { t'.core with created := false, disposed := false } := by
  obtain ⟨d', t', hrun, hw, hnodes, hclean, hcreated, hreopen⟩ := h.sound.flush h.core h.opened h.layout.1.ge
  exact ⟨d', t', hrun, h.writtenBack hw, hw, hnodes, hclean, hcreated, hreopen⟩

/-! ## Reopening -/

/-- `t'` is the file `t` with other contents: the same kind, layout, store and label. -/
structure Same (t t' : TreeFile) : Prop where
  kind : t'.kind = t.kind
  layout : t'.core.layout = t.core.layout
  store : t'.core.store = t.core.store
  label : t'.core.label = t.core.label

theorem Same.refl (t : TreeFile) : Same t t := ⟨rfl, rfl, rfl, rfl⟩

theorem Same.trans {t₁ t₂ t₃ : TreeFile} (h₁ : Same t₁ t₂) (h₂ : Same t₂ t₃) : Same t₁ t₃ :=
  ⟨h₂.kind.trans h₁.kind, h₂.layout.trans h₁.layout, h₂.store.trans h₁.store, h₂.label.trans h₁.label⟩

/-- A file whose file part is unchanged is the same file. -/
theorem Same.of_core_eq {t t' : TreeFile} (hc : t'.core = t.core) (hk : t'.kind = t.kind) : Same t t' :=
  ⟨hk, by rw [hc], by rw [hc], by rw [hc]⟩

/-- A file whose allocator alone changed is the same file. -/
theorem Same.of_core {t t' : TreeFile} {a : Allocator} (hc : t'.core = { t.core with allocator := a })
    (hk : t'.kind = t.kind) : Same t t' :=
  ⟨hk, by rw [hc], by rw [hc], by rw [hc]⟩

/-- Disposes the file and opens its store again with the same capacity, as a program does that
drops a file and opens its store anew. -/
def reopen : TreeOp Unit := fun st =>
  match TreeFile.dispose st with
  | .error e st' => .error e st'
  | .ok _ (d, t) => match TreeFile.open d t.core.store t.core.label t.kind t.core.layout.capacity with
    | .ok t' => .ok () (d, t')
    | .error e => .error e (d, t)

/-- The flags of the file part are read by no part of the invariant. -/
theorem Rows.reflag (h : t.Rows d R) (b : Bool) :
    ({ t with core := { t.core with created := b, disposed := false } } : TreeFile).Rows d R := by
  obtain ⟨T, val, hs, hR⟩ := h.shape
  exact ⟨{ h.sound with }, { h.core with }, rfl, h.layout, T, val, { hs with }, hR⟩

/-- Disposing a file that holds `R` writes it back; its store then opens again, with the same
capacity, as the same file holding `R` with the same pool. -/
theorem Rows.reopen (h : t.Rows d R) :
    ∃ d' t', TreeFile.reopen (d, t) = .ok () (d', t') ∧ t'.Rows d' R ∧
      t'.core.allocator.pool = t.core.allocator.pool ∧ Same t t' := by
  obtain ⟨d₁, t₁, hrun₁, hrows₁, hw₁, hnodes₁, hclean₁, -, -⟩ := h.flush
  obtain ⟨d₂, c, hflush₂, -, hpool₂, hlayout₂, hstore₂, hlabel₂, hreopen₂⟩ := hrows₁.core.flush
  -- disposing flushes the file part a second time, which writes it back again
  obtain ⟨d₂', c', hrun₂, hw₂, -, -⟩ := hrows₁.sound.flushCore hrows₁.core hrows₁.layout.1.ge
  have hrun₂' : (onCore BlockFile.flush : TreeOp Unit) (d₁, t₁) = .ok () (d₂, { t₁ with core := c }) := by
    simp only [onCore, FileOp.zoom, hflush₂]
  have hst := (EStateM.Result.ok.inj (hrun₂'.symm.trans hrun₂)).2
  obtain ⟨rfl, rfl⟩ : d₂ = d₂' ∧ c = c' := ⟨congrArg Prod.fst hst, congrArg (fun st => st.2.core) hst⟩
  have hdispose : TreeFile.dispose (d, t) = .ok () (d₂, { t₁ with core := { c with disposed := true } }) := by
    unfold TreeFile.dispose
    simp only [bind, EStateM.bind, FileOp.self, h.opened, Bool.false_eq_true, if_false, hrun₁]
    simp only [onCore, FileOp.zoom, BlockFile.dispose, bind, EStateM.bind, FileOp.self, hrows₁.opened,
      Bool.false_eq_true, if_false, hflush₂, FileOp.modify]
  have hopen := open_of_flushed hw₂.sound hnodes₁ hclean₁ (by
    have := hreopen₂ nodeHeader hrows₁.layout.2
    rwa [hrows₁.layout.1, ← hstore₂, ← hlabel₂, ← hlayout₂] at this)
  refine ⟨d₂, _, ?_, (hrows₁.writtenBack hw₂).reflag false, hpool₂.trans hw₁.pool,
    ⟨hw₁.kind, hlayout₂.trans hw₁.layout, hstore₂.trans hw₁.store, hlabel₂.trans hw₁.label⟩⟩
  simp only [TreeFile.reopen, hdispose]
  exact hopen ▸ rfl

/-! ## Opening -/

/-- A tree file opened on an empty store holds no rows. -/
theorem rows_open_new {store : StoreRef} {label : String} {kind : ValueKind} {capacity : Nat}
    (hcap : capacity < Nat.pow 256 4) (hs : store.store < d.stores.size) (hempty : d.size store.store = 0)
    (h : TreeFile.open d store label kind capacity = .ok t) : t.Rows d [] ∧ t.kind = kind := by
  unfold TreeFile.open at h
  cases hc : BlockFile.open d store label treeHeader nodeHeader capacity with
  | error e => simp [hc, bind, Except.bind] at h
  | ok core =>
    obtain ⟨hholds, hlayout, -, -⟩ := BlockFile.holds_open (by decide) (by decide) hcap hs hc
    have hbig := BlockFile.slotHeader_lt_of_open hc
    -- an empty store opens as a new file part: created, open, with a new allocator
    have hnew : core.created = true ∧ core.disposed = false ∧ core.allocator = Allocator.create core.layout := by
      unfold BlockFile.open at hc
      split at hc
      · cases hc
      simp only [hempty, beq_self_eq_true, if_true, Except.ok.injEq] at hc
      subst hc
      exact ⟨rfl, rfl, rfl⟩
    simp only [hc, hnew.1, if_true, bind, Except.bind, pure, Except.pure, Except.ok.injEq] at h
    subst h
    have hsound : TreeFile.Sound d ⟨core, kind, Cell.create 12 8 0, ∅⟩ :=
      { nodes := fun _ _ hn => by simp at hn
        capacity := by
          show nodeHeader ≤ core.layout.capacity
          rw [hlayout]
          exact Nat.le_of_lt hbig
        root_offset := rfl
        root_width := rfl
        root_fits := Cell.fits_create _ _ _
        root_trueTo := fun hd => by cases hd
        decodes := fun _ _ hn => by simp at hn
        allocated := fun _ hn => by simp at hn
        stored := fun _ _ hn => by simp at hn }
    refine ⟨⟨hsound, hholds, hnew.2.1, by rw [hlayout]; exact ⟨rfl, hbig⟩, IdTree.nil, fun _ => .bool false, ⟨trivial,
      by simp [Cell.create], ⟨List.nodup_nil, by simp, by simp⟩, trivial, List.Pairwise.nil, by simp, fun k => ?_⟩,
      rfl⟩, rfl⟩
    simp [BlockFile.isAllocated, hnew.2.2, Allocator.create, Allocator.isAllocated, Cell.create]

end TreeFile

end ColumnDb.Tree
