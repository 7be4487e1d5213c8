import Mathlib
import ColumnDb.Proofs.BlockFile
import ColumnDb.Proofs.IdTree
import ColumnDb.Tree.Shape

/-!
# The node heap of a tree file

Tree steps reach nodes only through `TreeFile.node`, which answers the cached
node or reads the slot from the store and decodes its value. `TreeFile.look`
is that answer as a function of the id, and `TreeFile.heap` is what a tree
step sees of it: links, cached child heights and value (`NodeView`). Between
two flushes the store does not change, so reading a node into the cache
changes neither, and changing a node changes the heap at that id only.

`Runs op d t r t'` says that `op`, run from the file `t` over the store `d`,
answers `r` and ends in `t'` without touching the store. The lemmas here give
each primitive step its effect on the heap, so that longer steps are read as
a sequence of heap updates.
-/

set_option autoImplicit false

namespace ColumnDb.Slot

open ColumnDb.Disk

/-! ## Node slots in place -/

/-- A node slot of a layout's slot `id`: each field at its place in the slot and of its width. -/
structure NodeSlot.Shaped (l : Layout) (id : Nat) (b : NodeSlot) : Prop where
  id_eq : b.id = id
  parent_offset : b.parent.offset = l.offset id
  parent_width : b.parent.width = 8
  left_offset : b.left.offset = l.offset id + 8
  left_width : b.left.width = 8
  leftDepth_offset : b.leftDepth.offset = l.offset id + 16
  leftDepth_width : b.leftDepth.width = 1
  right_offset : b.right.offset = l.offset id + 17
  right_width : b.right.width = 8
  rightDepth_offset : b.rightDepth.offset = l.offset id + 25
  rightDepth_width : b.rightDepth.width = 1
  len_offset : b.len.offset = l.offset id + 26
  len_width : b.len.width = 4
  payload_offset : b.payload.offset = l.offset id + nodeHeader
  payload_capacity : b.payload.capacity = NodeSlot.payloadCapacity l

namespace NodeSlot.Shaped

variable {l : Layout} {id : Nat} {b : NodeSlot}

theorem load (d : Disk) (s : Nat) (l : Layout) (id : Nat) : (NodeSlot.load d s l id).Shaped l id :=
  ⟨rfl, rfl, rfl, rfl, rfl, rfl, rfl, rfl, rfl, rfl, rfl, rfl, rfl, rfl, rfl⟩

theorem setParent (h : b.Shaped l id) (v : Nat) : (b.setParent v).Shaped l id :=
  { h with parent_offset := by simp [NodeSlot.setParent, h.parent_offset]
           parent_width := by simp [NodeSlot.setParent, h.parent_width] }

theorem setLeft (h : b.Shaped l id) (v : Nat) : (b.setLeft v).Shaped l id :=
  { h with left_offset := by simp [NodeSlot.setLeft, h.left_offset]
           left_width := by simp [NodeSlot.setLeft, h.left_width] }

theorem setRight (h : b.Shaped l id) (v : Nat) : (b.setRight v).Shaped l id :=
  { h with right_offset := by simp [NodeSlot.setRight, h.right_offset]
           right_width := by simp [NodeSlot.setRight, h.right_width] }

theorem setDepths (h : b.Shaped l id) (x y : Nat) : (b.setDepths x y).Shaped l id :=
  { h with leftDepth_offset := by simp [NodeSlot.setDepths, h.leftDepth_offset]
           leftDepth_width := by simp [NodeSlot.setDepths, h.leftDepth_width]
           rightDepth_offset := by simp [NodeSlot.setDepths, h.rightDepth_offset]
           rightDepth_width := by simp [NodeSlot.setDepths, h.rightDepth_width] }

end NodeSlot.Shaped

/-- A node slot that sits in slot `id`, whose numbers fit their widths and whose clean fields
hold what store `s` of `d` holds: what a flush needs of a cached node. -/
structure NodeSlot.Sound (l : Layout) (d : Disk) (s id : Nat) (b : NodeSlot) : Prop
    extends b.Shaped l id where
  parent_fits : b.parent.Fits
  left_fits : b.left.Fits
  leftDepth_fits : b.leftDepth.Fits
  right_fits : b.right.Fits
  rightDepth_fits : b.rightDepth.Fits
  len_fits : b.len.Fits
  payload_fits : b.payload.Fits
  parent_trueTo : b.parent.TrueTo d s
  left_trueTo : b.left.TrueTo d s
  leftDepth_trueTo : b.leftDepth.TrueTo d s
  right_trueTo : b.right.TrueTo d s
  rightDepth_trueTo : b.rightDepth.TrueTo d s
  len_trueTo : b.len.TrueTo d s
  payload_trueTo : b.payload.TrueTo d s

/-- The payload of a slot read from a store is the run of the store behind the header. -/
theorem NodeSlot.payload_load (d : Disk) (s : Nat) (l : Layout) (id : Nat) :
    (NodeSlot.load d s l id).payload.bytes = d.read s (l.offset id + nodeHeader) (NodeSlot.payloadCapacity l) := by
  show takePadded _ ((d.read s (l.offset id) l.capacity).drop nodeHeader) = _
  by_cases h : nodeHeader ≤ l.capacity
  · exact takePadded_drop_read d s _ _ _ _ (by unfold NodeSlot.payloadCapacity; omega)
  · have h0 : NodeSlot.payloadCapacity l = 0 := by unfold NodeSlot.payloadCapacity; omega
    rw [h0]
    simp [takePadded, Disk.read]

/-- A number sliced out of a read region fits its width. -/
theorem Cell.fits_ofBytes (off w : Nat) (bs : List UInt8) : (Cell.ofBytes off w bs).Fits := by
  have hlen : (takePadded w bs).length = w := by
    simp only [takePadded, List.length_append, List.length_take, List.length_replicate]
    omega
  have h := readLE_lt (takePadded w bs)
  rw [hlen] at h
  exact h

/-- A number sliced out of a read region inside the region holds what the store holds. -/
theorem Cell.trueTo_ofBytes_drop (d : Disk) (s base cap k w : Nat) (h : k + w ≤ cap) :
    (Cell.ofBytes (base + k) w ((d.read s base cap).drop k)).TrueTo d s := fun _ => by
  simp [Cell.stored, Cell.ofBytes, takePadded_drop_read d s base cap k w h]

namespace NodeSlot.Sound

variable {l : Layout} {d : Disk} {s id : Nat} {b : NodeSlot}

/-- A slot read from a store is sound, when the slot holds at least the node header. -/
theorem load (d : Disk) (s : Nat) (l : Layout) (id : Nat) (hcap : nodeHeader ≤ l.capacity) :
    (NodeSlot.load d s l id).Sound l d s id where
  toShaped := Shaped.load d s l id
  parent_fits := Cell.fits_ofBytes _ _ _
  left_fits := Cell.fits_ofBytes _ _ _
  leftDepth_fits := Cell.fits_ofBytes _ _ _
  right_fits := Cell.fits_ofBytes _ _ _
  rightDepth_fits := Cell.fits_ofBytes _ _ _
  len_fits := Cell.fits_ofBytes _ _ _
  payload_fits := Window.fits_ofBytes _ _ _
  parent_trueTo := Cell.trueTo_ofBytes_drop d s _ _ 0 8 (by unfold nodeHeader at hcap; omega)
  left_trueTo := Cell.trueTo_ofBytes_drop d s _ _ 8 8 (by unfold nodeHeader at hcap; omega)
  leftDepth_trueTo := Cell.trueTo_ofBytes_drop d s _ _ 16 1 (by unfold nodeHeader at hcap; omega)
  right_trueTo := Cell.trueTo_ofBytes_drop d s _ _ 17 8 (by unfold nodeHeader at hcap; omega)
  rightDepth_trueTo := Cell.trueTo_ofBytes_drop d s _ _ 25 1 (by unfold nodeHeader at hcap; omega)
  len_trueTo := Cell.trueTo_ofBytes_drop d s _ _ 26 4 (by unfold nodeHeader at hcap; omega)
  payload_trueTo := fun _ => (NodeSlot.payload_load d s l id).symm

theorem setParent (h : b.Sound l d s id) (v : Nat) : (b.setParent v).Sound l d s id :=
  { h with toShaped := h.toShaped.setParent v, parent_fits := Cell.fits_set _ _,
           parent_trueTo := h.parent_trueTo.set v }

theorem setLeft (h : b.Sound l d s id) (v : Nat) : (b.setLeft v).Sound l d s id :=
  { h with toShaped := h.toShaped.setLeft v, left_fits := Cell.fits_set _ _,
           left_trueTo := h.left_trueTo.set v }

theorem setRight (h : b.Sound l d s id) (v : Nat) : (b.setRight v).Sound l d s id :=
  { h with toShaped := h.toShaped.setRight v, right_fits := Cell.fits_set _ _,
           right_trueTo := h.right_trueTo.set v }

theorem setDepths (h : b.Sound l d s id) (x y : Nat) : (b.setDepths x y).Sound l d s id :=
  { h with toShaped := h.toShaped.setDepths x y, leftDepth_fits := Cell.fits_set _ _,
           rightDepth_fits := Cell.fits_set _ _, leftDepth_trueTo := h.leftDepth_trueTo.set x,
           rightDepth_trueTo := h.rightDepth_trueTo.set y }

end NodeSlot.Sound

end ColumnDb.Slot

namespace ColumnDb.Tree

open ColumnDb.Slot ColumnDb.Disk

/-- What a tree step sees of a node: its links, its cached child heights and its value. -/
structure NodeView where
  parent : Nat
  left : Nat
  right : Nat
  leftDepth : Nat
  rightDepth : Nat
  value : Value
deriving DecidableEq, Repr

/-- The nodes a tree step sees, by id. -/
abbrev Heap := Nat → Option NodeView

/-- The height a node's cached child heights give its subtree, as a byte. -/
def NodeView.depth (v : NodeView) : Nat := (1 + max v.leftDepth v.rightDepth) % 256

/-- The height of the subtree under an id, read from the heap as `depthOf` reads it. -/
def Heap.depthOf (H : Heap) (id : Nat) : Nat := if id = 0 then 0 else ((H id).map NodeView.depth).getD 0

/-- The view of a cached node. -/
def Node.view (n : Node) : NodeView :=
  ⟨n.slot.parent.value, n.slot.left.value, n.slot.right.value, n.slot.leftDepth.value,
    n.slot.rightDepth.value, n.value⟩

namespace TreeFile

/-- The node `node id` answers: the cached one, or the slot read from the store with its
decoded value. -/
def look (d : Disk) (t : TreeFile) (id : Nat) : Option Node :=
  match t.nodes[id]? with
  | some n => some n
  | none =>
    match t.kind.decode (NodeSlot.load d t.core.sid t.core.layout id).data with
    | .ok v => some ⟨NodeSlot.load d t.core.sid t.core.layout id, v⟩
    | .error _ => none

/-- An id whose node the file holds: allocated, and cached or with its slot begun inside the
store. -/
def present (d : Disk) (t : TreeFile) (id : Nat) : Prop :=
  t.core.isAllocated id = true ∧ (id ∈ t.nodes ∨ t.core.layout.offset id < d.size t.core.sid)

instance (d : Disk) (t : TreeFile) (id : Nat) : Decidable (t.present d id) :=
  inferInstanceAs (Decidable (_ ∧ (_ ∨ _)))

/-- What tree steps see of the nodes the file holds. -/
def heap (d : Disk) (t : TreeFile) : Heap := fun id => if t.present d id then (t.look d id).map Node.view else none

/-- `op`, run from `t` over `d`, answers `r` and ends in `t'`, the store untouched. -/
def Runs {α : Type} (op : TreeOp α) (d : Disk) (t : TreeFile) (r : α) (t' : TreeFile) : Prop :=
  op (d, t) = .ok r (d, t')

variable {α β : Type} {d : Disk} {t t₁ t₂ : TreeFile}

theorem Runs.bind {x : TreeOp α} {f : α → TreeOp β} {a : α} {b : β} (h₁ : Runs x d t a t₁)
    (h₂ : Runs (f a) d t₁ b t₂) : Runs (x >>= f) d t b t₂ := by
  unfold Runs at *
  show EStateM.bind x f (d, t) = _
  simp only [EStateM.bind, h₁, h₂]

theorem Runs.pure (a : α) : Runs (Pure.pure a) d t a t := rfl

theorem Runs.self : Runs FileOp.self d t t t := rfl

theorem Runs.modify (f : TreeFile → TreeFile) : Runs (FileOp.modify f) d t () (f t) := rfl

/-- `t'` keeps `t`'s file part and kind, caches at least the ids `t` caches, and still holds
every node `t` holds, with its value. -/
structure Keeps (d : Disk) (t t' : TreeFile) : Prop where
  core : t'.core = t.core
  kind : t'.kind = t.kind
  cached : ∀ k, k ∈ t.nodes → k ∈ t'.nodes
  values : ∀ (k : Nat) (v : NodeView), t.heap d k = some v →
    ∃ v' : NodeView, t'.heap d k = some v' ∧ v'.value = v.value

theorem Keeps.refl (t : TreeFile) : Keeps d t t := ⟨rfl, rfl, fun _ h => h, fun _ v h => ⟨v, h, rfl⟩⟩

theorem Keeps.trans (h₁ : Keeps d t t₁) (h₂ : Keeps d t₁ t₂) : Keeps d t t₂ := by
  refine ⟨h₂.core.trans h₁.core, h₂.kind.trans h₁.kind, fun k hk => h₂.cached k (h₁.cached k hk),
    fun k v hv => ?_⟩
  obtain ⟨v₁, hv₁, he₁⟩ := h₁.values k v hv
  obtain ⟨v₂, hv₂, he₂⟩ := h₂.values k v₁ hv₁
  exact ⟨v₂, hv₂, he₂.trans he₁⟩

end TreeFile

namespace TreeFile

variable {d : Disk} {t : TreeFile} {id : Nat} {n : Node}

theorem mem_insert_nat {β : Type} (m : Std.TreeMap Nat β) (a k : Nat) (v : β) :
    k ∈ m.insert a v ↔ k = a ∨ k ∈ m := by
  rw [Std.TreeMap.mem_insert, compare_eq_iff_eq, eq_comm]

theorem mem_of_getElem? {β : Type} {m : Std.TreeMap Nat β} {k : Nat} {v : β} (h : m[k]? = some v) :
    k ∈ m := by
  rw [Std.TreeMap.mem_iff_isSome_getElem?, h]
  rfl

/-- What a flush needs of a tree file: every cached node is sound in its own slot, reads as its
value, is allocated, and is new (its parent link dirty) or begun in the store; a slot holds at
least a node header; and the root cell sits at its place in the file header. -/
structure Sound (d : Disk) (t : TreeFile) : Prop where
  nodes : ∀ (id : Nat) (n : Node), t.nodes[id]? = some n → n.slot.Sound t.core.layout d t.core.sid id
  capacity : nodeHeader ≤ t.core.layout.capacity
  root_offset : t.root.offset = 12
  root_width : t.root.width = 8
  root_fits : t.root.Fits
  root_trueTo : t.root.TrueTo d t.core.sid
  decodes : ∀ (id : Nat) (n : Node), t.nodes[id]? = some n → t.kind.decode n.slot.data = .ok n.value
  allocated : ∀ id, id ∈ t.nodes → t.core.isAllocated id = true
  stored : ∀ (id : Nat) (n : Node), t.nodes[id]? = some n →
    n.slot.parent.dirty = true ∨ t.core.layout.offset id < d.size t.core.sid

theorem look_of_cached (h : t.nodes[id]? = some n) : t.look d id = some n := by
  simp [look, h]

/-- A node `look` finds is the cached one, or the slot read from the store with the value it
decodes to. -/
theorem look_cases (h : t.look d id = some n) :
    t.nodes[id]? = some n ∨ t.nodes[id]? = none ∧ n.slot = NodeSlot.load d t.core.sid t.core.layout id ∧
      t.kind.decode n.slot.data = .ok n.value := by
  unfold look at h
  split at h
  · next hc =>
    cases h
    exact .inl hc
  · next hc =>
    split at h
    · next v hv =>
      cases h
      exact .inr ⟨hc, rfl, hv⟩
    · cases h

theorem look_sound (ht : t.Sound d) (h : t.look d id = some n) :
    n.slot.Sound t.core.layout d t.core.sid id := by
  rcases look_cases h with hc | ⟨-, hslot, -⟩
  · exact ht.nodes id n hc
  · rw [hslot]
    exact NodeSlot.Sound.load _ _ _ _ ht.capacity

/-- Caching one more node keeps a file sound, when the node is sound in its slot, reads as its
value, is allocated, and is new or begun in the store. -/
theorem Sound.insert (ht : t.Sound d) (hn : n.slot.Sound t.core.layout d t.core.sid id)
    (hd : t.kind.decode n.slot.data = .ok n.value) (ha : t.core.isAllocated id = true)
    (hs : n.slot.parent.dirty = true ∨ t.core.layout.offset id < d.size t.core.sid) :
    ({ t with nodes := t.nodes.insert id n } : TreeFile).Sound d :=
  { ht with
    nodes := fun k m hm => by
      rw [FreeChain.getElem?_insert_nat] at hm
      split at hm
      · next hk =>
        cases hm
        subst hk
        exact hn
      · exact ht.nodes k m hm
    decodes := fun k m hm => by
      rw [FreeChain.getElem?_insert_nat] at hm
      split at hm
      · cases hm
        exact hd
      · exact ht.decodes k m hm
    allocated := fun k hk => by
      rcases (mem_insert_nat _ _ _ _).mp hk with rfl | hk
      · exact ha
      · exact ht.allocated k hk
    stored := fun k m hm => by
      rw [FreeChain.getElem?_insert_nat] at hm
      split at hm
      · next hk =>
        cases hm
        subst hk
        exact hs
      · exact ht.stored k m hm }

/-- The payload of a node `look` finds reads as its value. -/
theorem look_decodes (ht : t.Sound d) (h : t.look d id = some n) : t.kind.decode n.slot.data = .ok n.value := by
  rcases look_cases h with hc | ⟨-, -, hv⟩
  · exact ht.decodes id n hc
  · exact hv

theorem look_insert_self (t : TreeFile) (id : Nat) (n : Node) :
    ({ t with nodes := t.nodes.insert id n } : TreeFile).look d id = some n :=
  look_of_cached (by simp)

theorem look_insert_of_ne (t : TreeFile) {id k : Nat} (n : Node) (hk : k ≠ id) :
    ({ t with nodes := t.nodes.insert id n } : TreeFile).look d k = t.look d k := by
  simp only [look, FreeChain.getElem?_insert_nat, Ne.symm hk, if_false]

theorem present_of_heap {v : NodeView} (h : t.heap d id = some v) : t.present d id := by
  unfold heap at h
  split at h
  · assumption
  · cases h

theorem heap_of_present (h : t.present d id) : t.heap d id = (t.look d id).map Node.view :=
  if_pos h

theorem heap_eq_of {t' : TreeFile} (hp : t'.present d = t.present d) (hl : t'.look d = t.look d) :
    t'.heap d = t.heap d := by
  funext k
  simp only [heap, hp, hl]

/-- Caching a node the file holds leaves the held ids as they were. -/
theorem present_insert (hp : t.present d id) (n : Node) :
    ({ t with nodes := t.nodes.insert id n } : TreeFile).present d = t.present d := by
  funext k
  apply propext
  by_cases hk : k = id
  · subst hk
    exact ⟨fun _ => hp, fun _ => ⟨hp.1, .inl ((mem_insert_nat _ _ _ _).mpr (.inl rfl))⟩⟩
  · simp only [present, mem_insert_nat, hk, false_or]

/-- Reading a node the file holds answers what `look` finds and caches it, changing neither what
`look` finds nor the ids the file holds. -/
theorem node_runs (ht : t.Sound d) (hid : id ≠ 0) (hp : t.present d id) (h : t.look d id = some n) :
    ∃ t', Runs (node id) d t n t' ∧ Keeps d t t' ∧ t'.root = t.root ∧ t'.look d = t.look d ∧
      t'.present d = t.present d ∧ t'.nodes[id]? = some n ∧ t'.Sound d := by
  rcases look_cases h with hc | ⟨hc, hslot, hv⟩
  · refine ⟨t, ?_, Keeps.refl t, rfl, rfl, rfl, hc, ht⟩
    unfold Runs TreeFile.node
    show EStateM.bind FileOp.self _ (d, t) = _
    simp [EStateM.bind, FileOp.self, hid, hc, pure, EStateM.pure]
  · -- read from the store: the node joins the cache as it was read
    have hlook : ({ t with nodes := t.nodes.insert id n } : TreeFile).look d = t.look d := by
      funext k
      by_cases hk : k = id
      · subst hk
        rw [look_insert_self, h]
      · exact look_insert_of_ne t n hk
    have hpresent := present_insert hp n
    have hin : t.core.layout.offset id < d.size t.core.sid :=
      hp.2.resolve_left ((getElem?_eq_none_iff t.nodes id).mp hc)
    refine ⟨{ t with nodes := t.nodes.insert id n }, ?_,
      ⟨rfl, rfl, fun k hk => Std.TreeMap.mem_insert.mpr (.inr hk),
        fun k v hv => ⟨v, by rw [heap_eq_of hpresent hlook]; exact hv, rfl⟩⟩, rfl, hlook, hpresent,
      by simp, ht.insert (look_sound ht h) (look_decodes ht h) hp.1 (.inr hin)⟩
    unfold Runs TreeFile.node
    show EStateM.bind FileOp.self _ (d, t) = _
    simp [bind, EStateM.bind, FileOp.self, FileOp.disk, FileOp.modify, hid, hc, ← hslot, hv, pure,
      EStateM.pure]

/-- Changing a node's slot changes what `look` finds at that id, and nothing else. -/
theorem change_runs (ht : t.Sound d) (hid : id ≠ 0) (hp : t.present d id) (h : t.look d id = some n)
    (f : NodeSlot → NodeSlot) (hf : (f n.slot).Sound t.core.layout d t.core.sid id)
    (hdata : (f n.slot).data = n.slot.data)
    (hdirty : n.slot.parent.dirty = true → (f n.slot).parent.dirty = true) :
    ∃ t', Runs (change id f) d t () t' ∧ Keeps d t t' ∧ t'.root = t.root ∧
      t'.look d = Function.update (t.look d) id (some { n with slot := f n.slot }) ∧
      t'.present d = t.present d ∧ t'.Sound d := by
  obtain ⟨t₁, hrun, hk, hroot, hlook, hpres, hcached, hs⟩ := node_runs ht hid hp h
  have hp₁ : t₁.present d id := by rw [hpres]; exact hp
  have hlook' : ({ t₁ with nodes := t₁.nodes.insert id { n with slot := f n.slot } } : TreeFile).look d =
      Function.update (t.look d) id (some { n with slot := f n.slot }) := by
    funext k
    by_cases hkid : k = id
    · subst hkid
      rw [look_insert_self, Function.update_self]
    · rw [Function.update_of_ne hkid, ← hlook]
      exact look_insert_of_ne t₁ _ hkid
  have hpres' := (present_insert hp₁ { n with slot := f n.slot }).trans hpres
  -- the changed node keeps its value; every other node is as `t` holds it
  have hvalues : ∀ k v, t.heap d k = some v → ∃ v' : NodeView,
      ({ t₁ with nodes := t₁.nodes.insert id { n with slot := f n.slot } } : TreeFile).heap d k = some v' ∧
        v'.value = v.value := fun k v hv => by
    have hpk := present_of_heap hv
    have hpk' : ({ t₁ with nodes := t₁.nodes.insert id { n with slot := f n.slot } } : TreeFile).present d k := by
      rw [hpres']
      exact hpk
    rw [heap_of_present hpk] at hv
    by_cases hkid : k = id
    · subst hkid
      refine ⟨_, by rw [heap_of_present hpk', hlook', Function.update_self]; rfl, ?_⟩
      rw [h] at hv
      cases hv
      rfl
    · exact ⟨v, by rw [heap_of_present hpk', hlook', Function.update_of_ne hkid]; exact hv, rfl⟩
  refine ⟨{ t₁ with nodes := t₁.nodes.insert id { n with slot := f n.slot } }, hrun.bind (Runs.modify _),
    ⟨hk.core, hk.kind, fun k hk' => Std.TreeMap.mem_insert.mpr (.inr (hk.cached k hk')), hvalues⟩, hroot,
    hlook', hpres', hs.insert (by rw [hk.core]; exact hf) (by rw [hk.kind, hdata]; exact look_decodes ht h)
      (by rw [hk.core]; exact hp.1) ((hs.stored id n hcached).imp_left hdirty)⟩

/-! ## Steps as heap updates -/

/-- From `t`, `op` answers some `r` and ends in a sound file keeping `t`'s file part, whose root
id and heap satisfy `Q` with `r`. -/
def Yields {α : Type} (op : TreeOp α) (d : Disk) (t : TreeFile) (Q : α → Nat → Heap → Prop) : Prop :=
  ∃ r t', Runs op d t r t' ∧ Keeps d t t' ∧ t'.Sound d ∧ Q r t'.root.value (t'.heap d)

variable {α β : Type}

theorem Yields.bind {x : TreeOp α} {f : α → TreeOp β} {P : α → Nat → Heap → Prop}
    {Q : β → Nat → Heap → Prop} (h₁ : Yields x d t P)
    (h₂ : ∀ a t₁, Keeps d t t₁ → t₁.Sound d → P a t₁.root.value (t₁.heap d) → Yields (f a) d t₁ Q) :
    Yields (x >>= f) d t Q := by
  obtain ⟨a, t₁, hrun₁, hk₁, hs₁, hP⟩ := h₁
  obtain ⟨b, t₂, hrun₂, hk₂, hs₂, hQ⟩ := h₂ a t₁ hk₁ hs₁ hP
  exact ⟨b, t₂, hrun₁.bind hrun₂, hk₁.trans hk₂, hs₂, hQ⟩

theorem Yields.pure (ht : t.Sound d) {a : α} {Q : α → Nat → Heap → Prop}
    (h : Q a t.root.value (t.heap d)) : Yields (Pure.pure a) d t Q :=
  ⟨a, t, Runs.pure a, Keeps.refl t, ht, h⟩

theorem Yields.mono {x : TreeOp α} {P Q : α → Nat → Heap → Prop} (h : Yields x d t P)
    (hPQ : ∀ a ρ H, P a ρ H → Q a ρ H) : Yields x d t Q := by
  obtain ⟨a, t', hrun, hk, hs, hP⟩ := h
  exact ⟨a, t', hrun, hk, hs, hPQ _ _ _ hP⟩

theorem Yields.discard {x : TreeOp α} {P : α → Nat → Heap → Prop} (h : Yields x d t P) :
    Yields (discard x) d t fun _ ρ H => ∃ a, P a ρ H :=
  h.bind fun a _ _ hs hP => Yields.pure hs ⟨a, hP⟩

/-- A step that may be skipped, followed by the rest of a block: the way `if c then x` reads
inside a `do` block. -/
theorem Yields.bind_ite {c : Prop} [Decidable c] {x : TreeOp Unit} {k : Unit → TreeOp β}
    {P : Unit → Nat → Heap → Prop} {Q : β → Nat → Heap → Prop}
    (h₁ : Yields (if c then x else Pure.pure ()) d t P)
    (h₂ : ∀ a t₁, Keeps d t t₁ → t₁.Sound d → P a t₁.root.value (t₁.heap d) → Yields (k a) d t₁ Q) :
    Yields (if c then x >>= k else k ()) d t Q := by
  by_cases hc : c
  · rw [if_pos hc] at h₁ ⊢
    exact h₁.bind h₂
  · rw [if_neg hc] at h₁ ⊢
    obtain ⟨a, t', hrun, hk, hs, hP⟩ := h₁
    cases hrun
    exact h₂ () t hk hs hP

end TreeFile

/-- A slot shows a view when its links and cached heights are the view's. -/
structure Shows (s : NodeSlot) (v : NodeView) : Prop where
  parent : s.parent.value = v.parent
  left : s.left.value = v.left
  right : s.right.value = v.right
  leftDepth : s.leftDepth.value = v.leftDepth
  rightDepth : s.rightDepth.value = v.rightDepth

theorem shows_view (n : Node) : Shows n.slot n.view := ⟨rfl, rfl, rfl, rfl, rfl⟩

theorem Shows.depth {s : NodeSlot} {v : NodeView} (h : Shows s v) : s.depth = v.depth := by
  simp [NodeSlot.depth, NodeView.depth, h.leftDepth, h.rightDepth]

theorem Heap.depthOf_lt (H : Heap) (id : Nat) : H.depthOf id < 256 := by
  unfold Heap.depthOf
  split
  · omega
  · cases H id with
    | none => simp
    | some v => simpa [NodeView.depth] using Nat.mod_lt _ (by omega)

/-- The view with `new` in place of the child `old`: the left one if it is `old`, else the
right one. -/
def NodeView.swap (old new : Nat) (v : NodeView) : NodeView :=
  if v.left = old then { v with left := new } else { v with right := new }

/-- An edit of node slots that keeps every slot sound and its payload, and changes the view as
`g` does. -/
structure SlotEdit (f : NodeSlot → NodeSlot) (g : NodeView → NodeView) : Prop where
  sound : ∀ {l : Layout} {d : Disk} {s id : Nat} {b : NodeSlot}, b.Sound l d s id → (f b).Sound l d s id
  view : ∀ {l : Layout} {d : Disk} {s id : Nat} {n : Node}, n.slot.Sound l d s id →
    ({ n with slot := f n.slot } : Node).view = g n.view
  data : ∀ b, (f b).data = b.data
  dirty : ∀ b, b.parent.dirty = true → (f b).parent.dirty = true

namespace SlotEdit

theorem setParent {v : Nat} (hv : v < Nat.pow 256 8) :
    SlotEdit (·.setParent v) fun w => { w with parent := v } :=
  ⟨fun h => h.setParent v, fun h => by
    simp [Node.view, NodeSlot.setParent, Cell.value_set _ (show v < Nat.pow 256 _ by
      rw [h.parent_width]; exact hv)], fun _ => rfl, fun _ h => Cell.dirty_set _ _ h⟩

theorem setLeft {v : Nat} (hv : v < Nat.pow 256 8) :
    SlotEdit (·.setLeft v) fun w => { w with left := v } :=
  ⟨fun h => h.setLeft v, fun h => by
    simp [Node.view, NodeSlot.setLeft, Cell.value_set _ (show v < Nat.pow 256 _ by
      rw [h.left_width]; exact hv)], fun _ => rfl, fun _ h => h⟩

theorem setRight {v : Nat} (hv : v < Nat.pow 256 8) :
    SlotEdit (·.setRight v) fun w => { w with right := v } :=
  ⟨fun h => h.setRight v, fun h => by
    simp [Node.view, NodeSlot.setRight, Cell.value_set _ (show v < Nat.pow 256 _ by
      rw [h.right_width]; exact hv)], fun _ => rfl, fun _ h => h⟩

theorem setDepths {x y : Nat} (hx : x < 256) (hy : y < 256) :
    SlotEdit (·.setDepths x y) fun w => { w with leftDepth := x, rightDepth := y } :=
  ⟨fun h => h.setDepths x y, fun {_ _ _ _ n} h => by
    have hx' : x < Nat.pow 256 n.slot.leftDepth.width := by rw [h.leftDepth_width]; exact hx
    have hy' : y < Nat.pow 256 n.slot.rightDepth.width := by rw [h.rightDepth_width]; exact hy
    simp [Node.view, NodeSlot.setDepths, Cell.value_set _ hx', Cell.value_set _ hy'], fun _ => rfl,
    fun _ h => h⟩

theorem comp {f f' : NodeSlot → NodeSlot} {g g' : NodeView → NodeView} (h : SlotEdit f g)
    (h' : SlotEdit f' g') : SlotEdit (fun b => f' (f b)) fun w => g' (g w) :=
  ⟨fun hb => h'.sound (h.sound hb), fun {_ _ _ _ n} hb => by
    rw [← h.view hb]
    exact h'.view (n := { n with slot := f n.slot }) (h.sound hb), fun b => (h'.data _).trans (h.data b),
    fun b hb => h'.dirty _ (h.dirty b hb)⟩

/-- The edit that makes `new` the child that `old` was: the left one if it is `old`, else the
right one. -/
theorem swapChild (old : Nat) {new : Nat} (hv : new < Nat.pow 256 8) :
    SlotEdit (fun b => if b.left.value == old then b.setLeft new else b.setRight new)
      (NodeView.swap old new) :=
  ⟨fun hb => by
    split
    · exact hb.setLeft new
    · exact hb.setRight new,
   fun {_ _ _ _ n} hb => by
    by_cases hl : n.slot.left.value = old
    · simp only [hl, beq_self_eq_true, if_true]
      rw [(setLeft hv).view hb]
      simp [NodeView.swap, Node.view, hl]
    · simp only [beq_iff_eq, hl, if_false]
      rw [(setRight hv).view hb]
      simp [NodeView.swap, Node.view, hl],
   fun b => by
    split
    · rfl
    · rfl,
   fun b hb => by
    split
    · exact hb
    · exact hb⟩

end SlotEdit

namespace TreeFile

variable {d : Disk} {t : TreeFile} {id : Nat} {v : NodeView}

theorem exists_look_of_heap (h : t.heap d id = some v) :
    t.present d id ∧ ∃ n, t.look d id = some n ∧ n.view = v := by
  have hp := present_of_heap h
  rw [heap_of_present hp] at h
  exact ⟨hp, Option.map_eq_some_iff.mp h⟩

theorem node_yields (ht : t.Sound d) (hid : id ≠ 0) (hv : t.heap d id = some v) :
    Yields (node id) d t fun n ρ H => n.view = v ∧ ρ = t.root.value ∧ H = t.heap d := by
  obtain ⟨hp, n, hn, rfl⟩ := exists_look_of_heap hv
  obtain ⟨t', hrun, hk, hroot, hlook, hpres, -, hs⟩ := node_runs ht hid hp hn
  exact ⟨n, t', hrun, hk, hs, rfl, by rw [hroot], heap_eq_of hpres hlook⟩

theorem links_yields (ht : t.Sound d) (hid : id ≠ 0) (hv : t.heap d id = some v) :
    Yields (links id) d t fun s ρ H => Shows s v ∧ ρ = t.root.value ∧ H = t.heap d :=
  (node_yields ht hid hv).bind fun n _ _ hs ⟨hn, hρ, hH⟩ =>
    Yields.pure hs ⟨hn ▸ shows_view n, hρ, hH⟩

/-- Changing a node by a slot edit changes the heap at that node by the edit's view. -/
theorem change_yields {f : NodeSlot → NodeSlot} {g : NodeView → NodeView} (ht : t.Sound d)
    (hid : id ≠ 0) (hv : t.heap d id = some v) (he : SlotEdit f g) :
    Yields (change id f) d t fun _ ρ H => ρ = t.root.value ∧ H = Function.update (t.heap d) id (some (g v)) := by
  obtain ⟨hp, n, hn, rfl⟩ := exists_look_of_heap hv
  have hsound := look_sound ht hn
  obtain ⟨t', hrun, hk, hroot, hlook, hpres, hs⟩ :=
    change_runs ht hid hp hn f (he.sound hsound) (he.data _) (he.dirty _)
  refine ⟨(), t', hrun, hk, hs, by rw [hroot], ?_⟩
  funext k
  by_cases hkid : k = id
  · subst hkid
    rw [Function.update_self, heap_of_present (by rw [hpres]; exact hp), hlook, Function.update_self]
    simp [he.view hsound]
  · simp only [heap, hpres, hlook, Function.update_of_ne hkid]

theorem depthOf_yields (ht : t.Sound d) (h : id = 0 ∨ (t.heap d id).isSome) :
    Yields (depthOf id) d t fun k ρ H => k = (t.heap d).depthOf id ∧ ρ = t.root.value ∧ H = t.heap d := by
  unfold depthOf
  by_cases hid : id = 0
  · subst hid
    exact Yields.pure ht ⟨by simp [Heap.depthOf], rfl, rfl⟩
  · obtain ⟨v, hv⟩ := Option.isSome_iff_exists.mp (h.resolve_left hid)
    simp only [beq_iff_eq, hid, if_false]
    refine (links_yields ht hid hv).bind fun s _ _ hs hpost => ?_
    obtain ⟨hsv, hρ, hH⟩ := hpost
    exact Yields.pure hs ⟨by simp [Heap.depthOf, hid, hv, hsv.depth], hρ, hH⟩

/-- Refreshing a node sets its cached heights to what its children's cached heights give. -/
theorem refresh_yields (ht : t.Sound d) (hid : id ≠ 0) (hv : t.heap d id = some v)
    (hl : v.left = 0 ∨ (t.heap d v.left).isSome) (hr : v.right = 0 ∨ (t.heap d v.right).isSome) :
    Yields (refresh id) d t fun _ ρ H => ρ = t.root.value ∧
      H = Function.update (t.heap d) id
        (some { v with leftDepth := (t.heap d).depthOf v.left, rightDepth := (t.heap d).depthOf v.right }) := by
  unfold refresh
  refine (links_yields ht hid hv).bind fun s t₁ _ hs₁ ⟨hsv, hρ₁, hH₁⟩ => ?_
  refine (depthOf_yields hs₁ (by rw [hsv.left, hH₁]; exact hl)).bind fun a t₂ _ hs₂ ⟨ha, hρ₂, hH₂⟩ => ?_
  refine (depthOf_yields hs₂ (by rw [hsv.right, hH₂, hH₁]; exact hr)).bind
    fun b t₃ _ hs₃ ⟨hb, hρ₃, hH₃⟩ => ?_
  rw [hH₁, hsv.left] at ha
  rw [hH₂, hH₁, hsv.right] at hb
  have hv₃ : t₃.heap d id = some v := by rw [hH₃, hH₂, hH₁]; exact hv
  have hdepths := SlotEdit.setDepths (show a < 256 by rw [ha]; exact Heap.depthOf_lt _ _)
    (show b < 256 by rw [hb]; exact Heap.depthOf_lt _ _)
  refine (change_yields hs₃ hid hv₃ hdepths).mono ?_
  rintro - ρ H ⟨hρ, hH⟩
  exact ⟨by rw [hρ, hρ₃, hρ₂, hρ₁], by rw [hH, hH₃, hH₂, hH₁, ha, hb]⟩

theorem balance_yields (ht : t.Sound d) (hid : id ≠ 0) (hv : t.heap d id = some v) :
    Yields (balance id) d t fun b ρ H => b = (v.leftDepth : Int) - v.rightDepth ∧ ρ = t.root.value ∧
      H = t.heap d :=
  (links_yields ht hid hv).bind fun s _ _ hs ⟨hsv, hρ, hH⟩ =>
    Yields.pure hs ⟨by rw [hsv.leftDepth, hsv.rightDepth], hρ, hH⟩

/-- Setting the root cell to an id that fits a link makes it the root id. -/
theorem setRoot_yields (ht : t.Sound d) {new : Nat} (hnew : new < Nat.pow 256 8) :
    Yields (FileOp.modify fun t : TreeFile => { t with root := t.root.set new }) d t
      fun _ ρ H => ρ = new ∧ H = t.heap d := by
  have hw : new < Nat.pow 256 t.root.width := by rw [ht.root_width]; exact hnew
  refine ⟨(), { t with root := t.root.set new }, rfl, ⟨rfl, rfl, fun _ h => h, fun _ v h => ⟨v, h, rfl⟩⟩, ?_, Cell.value_set _ hw, rfl⟩
  exact { ht with
    root_offset := by rw [Cell.offset_set]; exact ht.root_offset
    root_width := by rw [Cell.width_set]; exact ht.root_width
    root_fits := Cell.fits_set _ _
    root_trueTo := ht.root_trueTo.set new }

/-- At the root, the new child becomes the root. -/
theorem replaceChild_root_yields (ht : t.Sound d) (old : Nat) {new : Nat} (hnew : new < Nat.pow 256 8) :
    Yields (replaceChild 0 old new) d t fun _ ρ H => ρ = new ∧ H = t.heap d :=
  setRoot_yields ht hnew

theorem Yields.self_bind {α : Type} {f : TreeFile → TreeOp α} {Q : α → Nat → Heap → Prop}
    (h : Yields (f t) d t Q) : Yields (FileOp.self >>= f) d t Q := by
  obtain ⟨r, t', hrun, hk, hs, hQ⟩ := h
  exact ⟨r, t', Runs.self.bind hrun, hk, hs, hQ⟩

/-- Below a parent, the new child takes the old one's side. -/
theorem replaceChild_node_yields (ht : t.Sound d) {parent : Nat} (hp : parent ≠ 0)
    (hv : t.heap d parent = some v) (old : Nat) {new : Nat} (hnew : new < Nat.pow 256 8) :
    Yields (replaceChild parent old new) d t fun _ ρ H => ρ = t.root.value ∧
      H = Function.update (t.heap d) parent (some (v.swap old new)) := by
  rw [replaceChild, if_neg (by simpa using hp)]
  have h := change_yields ht hp hv (SlotEdit.swapChild old hnew)
  exact h

end TreeFile

end ColumnDb.Tree
