import Mathlib
import ColumnDb.Proofs.TreeHeap

/-!
# Trees held by the node heap

`Rep H val p t` says that the heap `H` holds the tree of ids `t` hanging below
the parent `p`: every node links to its parent and children, caches the
heights of its two subtrees, and carries the value `val` gives its id.
`RepCtx H val ρ c x` says the heap holds the context `c` around a hole whose
subtree has the root id `x`: the ancestors link to each other and to `x`, the
siblings hanging off the path are held in full, and at the top the root id
is `ρ`. The ancestors' cached heights are left free, since a retrace only
gets to them on its way up.

The main statements here are that a rotation rotates the tree the heap holds
(`rotateRight_yields`, `rotateLeft_yields`), that `rebalance` performs
`IdTree.rebal` on it, and that `retraceFor` performs `Ctx.retraceUp`.
-/

set_option autoImplicit false

namespace ColumnDb.Tree

open ColumnDb.Slot ColumnDb.Disk IdTree

/-! ## The trees a heap holds -/

/-- The id of the node just above the hole, 0 at the top. -/
def Ctx.parentId : Ctx → Nat
  | .top => 0
  | .inL _ y _ => y
  | .inR _ y _ => y

/-- The ids of a context: its ancestors and the siblings hanging off the path. -/
def Ctx.ids (c : Ctx) : List Nat := c.before ++ c.after

/-- The heap holds `t` below parent `p`, with exact cached heights and the values of `val`. -/
def Rep (H : Heap) (val : Nat → Value) : Nat → IdTree → Prop
  | _, nil => True
  | p, node l x r => x ≠ 0 ∧ H x = some ⟨p, l.rootId, r.rootId, l.height, r.height, val x⟩ ∧
      Rep H val x l ∧ Rep H val x r

/-- The heap holds `node l x r` below `p`, the cached heights of `x` itself aside: a node whose
subtrees changed before its own heights are refreshed. -/
def RepNode (H : Heap) (val : Nat → Value) (p : Nat) (l : IdTree) (x : Nat) (r : IdTree) : Prop :=
  x ≠ 0 ∧ (∃ a b, H x = some ⟨p, l.rootId, r.rootId, a, b, val x⟩) ∧ Rep H val x l ∧ Rep H val x r

/-- The heap holds the context `c` around a hole with root id `x`, the root id being `ρ`. -/
def RepCtx (H : Heap) (val : Nat → Value) (ρ : Nat) : Ctx → Nat → Prop
  | .top, x => ρ = x
  | .inL c y r, x => y ≠ 0 ∧ (∃ a b, H y = some ⟨c.parentId, x, r.rootId, a, b, val y⟩) ∧
      Rep H val y r ∧ RepCtx H val ρ c y
  | .inR l y c, x => y ≠ 0 ∧ (∃ a b, H y = some ⟨c.parentId, l.rootId, x, a, b, val y⟩) ∧
      Rep H val y l ∧ RepCtx H val ρ c y

/-- The ids of a tree are distinct, none is 0, and each fits a link. -/
structure IdTree.Ids (t : IdTree) : Prop where
  nodup : t.toList.Nodup
  pos : ∀ k ∈ t.toList, 0 < k
  lt : ∀ k ∈ t.toList, k < Nat.pow 256 8

variable {H H' : Heap} {val : Nat → Value} {p q ρ : Nat}

@[simp] theorem rep_nil : Rep H val p nil := trivial

@[simp] theorem rep_node (l : IdTree) (x : Nat) (r : IdTree) :
    Rep H val p (node l x r) ↔ x ≠ 0 ∧ H x = some ⟨p, l.rootId, r.rootId, l.height, r.height, val x⟩ ∧
      Rep H val x l ∧ Rep H val x r := Iff.rfl

/-- A heap that agrees on a tree's ids holds the same tree. -/
theorem Rep.congr {t : IdTree} (h : Rep H val p t) (hH : ∀ k ∈ t.toList, H' k = H k) : Rep H' val p t := by
  induction t generalizing p with
  | nil => trivial
  | node l x r ihl ihr =>
    obtain ⟨hx, hv, hl, hr⟩ := h
    refine ⟨hx, by rw [hH x (by simp)]; exact hv, ihl hl fun k hk => hH k (by simp [hk]),
      ihr hr fun k hk => hH k (by simp [hk])⟩

/-- The cached height of a held tree's root is the tree's height, while it fits a byte. -/
theorem Rep.depthOf {t : IdTree} (h : Rep H val p t) (hh : t.height < 256) : H.depthOf t.rootId = t.height := by
  cases t with
  | nil => simp [Heap.depthOf]
  | node l x r =>
    obtain ⟨hx, hv, -, -⟩ := h
    simp only [Heap.depthOf, rootId_node, hx, if_false, hv, Option.map_some, Option.getD_some,
      NodeView.depth, height_node] at hh ⊢
    omega

/-- The root of a held tree is in the heap. -/
theorem Rep.root {t : IdTree} (h : Rep H val p t) : t.rootId = 0 ∨ (H t.rootId).isSome := by
  cases t with
  | nil => exact .inl rfl
  | node l x r => exact .inr (by simp [h.2.1])

/-- Hanging a held tree below another parent changes only its root's parent link. -/
theorem Rep.reparent {t : IdTree} (h : Rep H val p t) (hnd : t.toList.Nodup)
    (hH : ∀ k ∈ t.toList, k ≠ t.rootId → H' k = H k)
    (hroot : H' t.rootId = (H t.rootId).map fun v => { v with parent := q }) : Rep H' val q t := by
  cases t with
  | nil => trivial
  | node l x r =>
    obtain ⟨hx, hv, hl, hr⟩ := h
    simp only [toList_node, List.nodup_append, List.nodup_cons, List.mem_cons, rootId_node] at hnd hH hroot
    refine ⟨hx, by rw [hroot, hv]; rfl, hl.congr fun k hk => hH k (by simp [hk]) ?_,
      hr.congr fun k hk => hH k (by simp [hk]) ?_⟩
    · rintro rfl
      exact hnd.2.2 k hk k (.inl rfl) rfl
    · rintro rfl
      exact hnd.2.1.1 hk

@[simp] theorem mem_ids_top (k : Nat) : k ∈ Ctx.top.ids ↔ False := by simp [Ctx.ids, Ctx.before, Ctx.after]

@[simp] theorem mem_ids_inL (c : Ctx) (y : Nat) (r : IdTree) (k : Nat) :
    k ∈ (Ctx.inL c y r).ids ↔ k = y ∨ k ∈ r.toList ∨ k ∈ c.ids := by
  simp only [Ctx.ids, Ctx.before, Ctx.after, List.mem_append, List.mem_cons]
  tauto

@[simp] theorem mem_ids_inR (l : IdTree) (y : Nat) (c : Ctx) (k : Nat) :
    k ∈ (Ctx.inR l y c).ids ↔ k = y ∨ k ∈ l.toList ∨ k ∈ c.ids := by
  simp only [Ctx.ids, Ctx.before, Ctx.after, List.mem_append, List.mem_cons, List.not_mem_nil]
  tauto

theorem ids_inL_perm (c : Ctx) (y : Nat) (r : IdTree) :
    (Ctx.inL c y r).ids.Perm (y :: (r.toList ++ c.ids)) :=
  List.perm_iff_count.mpr fun a => by
    simp only [Ctx.ids, Ctx.before, Ctx.after, List.count_append, List.count_cons]
    omega

theorem ids_inR_perm (l : IdTree) (y : Nat) (c : Ctx) :
    (Ctx.inR l y c).ids.Perm (y :: (l.toList ++ c.ids)) :=
  List.perm_iff_count.mpr fun a => by
    simp only [Ctx.ids, Ctx.before, Ctx.after, List.count_append, List.count_cons, List.count_nil]
    omega

@[simp] theorem repCtx_top (x : Nat) : RepCtx H val ρ .top x ↔ ρ = x := Iff.rfl

@[simp] theorem repCtx_inL (c : Ctx) (y : Nat) (r : IdTree) (x : Nat) :
    RepCtx H val ρ (.inL c y r) x ↔ y ≠ 0 ∧ (∃ a b, H y = some ⟨c.parentId, x, r.rootId, a, b, val y⟩) ∧
      Rep H val y r ∧ RepCtx H val ρ c y := Iff.rfl

@[simp] theorem repCtx_inR (l : IdTree) (y : Nat) (c : Ctx) (x : Nat) :
    RepCtx H val ρ (.inR l y c) x ↔ y ≠ 0 ∧ (∃ a b, H y = some ⟨c.parentId, l.rootId, x, a, b, val y⟩) ∧
      Rep H val y l ∧ RepCtx H val ρ c y := Iff.rfl

/-- A heap that agrees on a context's ids holds the same context. -/
theorem RepCtx.congr {c : Ctx} {x : Nat} (h : RepCtx H val ρ c x) (hH : ∀ k ∈ c.ids, H' k = H k) :
    RepCtx H' val ρ c x := by
  induction c generalizing x with
  | top => exact h
  | inL c y r ih =>
    obtain ⟨hy, ⟨a, b, hv⟩, hr, hc⟩ := h
    exact ⟨hy, ⟨a, b, by rw [hH y (by simp)]; exact hv⟩, hr.congr fun k hk => hH k (by simp [hk]),
      ih hc fun k hk => hH k (by simp [hk])⟩
  | inR l y c ih =>
    obtain ⟨hy, ⟨a, b, hv⟩, hl, hc⟩ := h
    exact ⟨hy, ⟨a, b, by rw [hH y (by simp)]; exact hv⟩, hl.congr fun k hk => hH k (by simp [hk]),
      ih hc fun k hk => hH k (by simp [hk])⟩

theorem IdTree.rootId_mem {t : IdTree} (h : t.rootId ≠ 0) : t.rootId ∈ t.toList := by
  cases t with
  | nil => exact absurd rfl h
  | node l x r => simp

theorem IdTree.rootId_lt {t : IdTree} (h : ∀ k ∈ t.toList, k < Nat.pow 256 8) : t.rootId < Nat.pow 256 8 := by
  by_cases h0 : t.rootId = 0
  · rw [h0]
    decide
  · exact h _ (rootId_mem h0)

/-- What distinct ids of a whole tree give for the subtree in a hole and the context around it. -/
theorem IdTree.Ids.hole {c : Ctx} {t : IdTree} (h : (c.plug t).Ids) :
    t.Ids ∧ c.ids.Nodup ∧ (∀ k ∈ t.toList, k ∉ c.ids) ∧ ∀ k ∈ c.ids, 0 < k ∧ k < Nat.pow 256 8 := by
  have hperm : (c.plug t).toList.Perm (t.toList ++ c.ids) := by
    rw [Ctx.toList_plug]
    exact List.perm_iff_count.mpr fun a => by simp only [Ctx.ids, List.count_append]; omega
  have hnd := hperm.nodup_iff.mp h.nodup
  rw [List.nodup_append] at hnd
  have hmem : ∀ k, k ∈ t.toList ∨ k ∈ c.ids → k ∈ (c.plug t).toList := fun k hk =>
    hperm.mem_iff.mpr (List.mem_append.mpr hk)
  exact ⟨⟨hnd.1, fun k hk => h.pos k (hmem k (.inl hk)), fun k hk => h.lt k (hmem k (.inl hk))⟩, hnd.2.1,
    fun k hk hk' => hnd.2.2 k hk k hk' rfl,
    fun k hk => ⟨h.pos k (hmem k (.inr hk)), h.lt k (hmem k (.inr hk))⟩⟩

variable {d : Disk} {t : TreeFile}

/-- Replacing the hole's root by another id under its parent: the heap then holds the context
around the new id, and no other node changed. -/
theorem replaceChild_ctx_yields (ht : t.Sound d) {c : Ctx} {x y : Nat}
    (hctx : RepCtx (t.heap d) val t.root.value c x) (hnd : (x :: c.ids).Nodup) (hx : x ≠ 0)
    (hy : y < Nat.pow 256 8) :
    TreeFile.Yields (TreeFile.replaceChild c.parentId x y) d t fun _ ρ H =>
      RepCtx H val ρ c y ∧ ∀ k, k ≠ c.parentId → H k = t.heap d k := by
  cases c with
  | top =>
    refine (TreeFile.replaceChild_root_yields ht x hy).mono fun _ ρ H hpost => ?_
    obtain ⟨hρ, hH⟩ := hpost
    exact ⟨hρ, fun k _ => by rw [hH]⟩
  | inL c p r =>
    obtain ⟨hp, ⟨a, b, hv⟩, hr, hc⟩ := hctx
    have hnd' := (ids_inL_perm c p r).nodup_iff.mp (List.nodup_cons.mp hnd).2
    simp only [List.nodup_cons, List.mem_append, not_or] at hnd'
    refine (TreeFile.replaceChild_node_yields ht hp hv x hy).mono fun _ ρ H hpost => ?_
    obtain ⟨hρ, hH⟩ := hpost
    refine ⟨?_, fun k hk => by rw [hH, Function.update_of_ne (show k ≠ p from hk)]⟩
    subst hH hρ
    refine ⟨hp, ⟨a, b, by simp [NodeView.swap]⟩, hr.congr fun k hk => ?_, hc.congr fun k hk => ?_⟩
    · rw [Function.update_of_ne]
      rintro rfl
      exact hnd'.1.1 hk
    · rw [Function.update_of_ne]
      rintro rfl
      exact hnd'.1.2 hk
  | inR l p c =>
    obtain ⟨hp, ⟨a, b, hv⟩, hl, hc⟩ := hctx
    have hnd' := (ids_inR_perm l p c).nodup_iff.mp (List.nodup_cons.mp hnd).2
    simp only [List.nodup_cons, List.mem_append, not_or] at hnd'
    -- the left child is not the hole, so the hole is the right child
    have hleft : l.rootId ≠ x := by
      intro hlx
      have hxl : x ∈ l.toList := hlx ▸ rootId_mem (hlx ▸ hx)
      exact (List.nodup_cons.mp hnd).1 (by simp [hxl])
    refine (TreeFile.replaceChild_node_yields ht hp hv x hy).mono fun _ ρ H hpost => ?_
    obtain ⟨hρ, hH⟩ := hpost
    refine ⟨?_, fun k hk => by rw [hH, Function.update_of_ne (show k ≠ p from hk)]⟩
    subst hH hρ
    refine ⟨hp, ⟨a, b, by simp [NodeView.swap, hleft]⟩, hl.congr fun k hk => ?_, hc.congr fun k hk => ?_⟩
    · rw [Function.update_of_ne]
      rintro rfl
      exact hnd'.1.1 hk
    · rw [Function.update_of_ne]
      rintro rfl
      exact hnd'.1.2 hk

theorem Ctx.parentId_mem (c : Ctx) : c.parentId = 0 ∨ c.parentId ∈ c.ids := by
  cases c <;> simp [Ctx.parentId]

/-- Hanging a possibly empty subtree below `z`: the heap then holds it below `z`, and only its
root changed. -/
theorem reparent_yields (ht : t.Sound d) {b : IdTree} {y z : Nat} (hb : Rep (t.heap d) val y b)
    (hnd : b.toList.Nodup) (hz : z < Nat.pow 256 8) :
    TreeFile.Yields (if (b.rootId != 0) = true then TreeFile.change b.rootId (·.setParent z) else pure ())
      d t fun _ ρ H => ρ = t.root.value ∧ Rep H val z b ∧ ∀ k, k ≠ b.rootId → H k = t.heap d k := by
  cases b with
  | nil =>
    rw [if_neg (by simp)]
    exact TreeFile.Yields.pure ht ⟨rfl, trivial, fun _ _ => rfl⟩
  | node l x r =>
    obtain ⟨hx, hv, hl, hr⟩ := hb
    rw [if_pos (by simpa using hx)]
    refine (TreeFile.change_yields ht hx hv (SlotEdit.setParent hz)).mono fun _ ρ H ⟨hρ, hH⟩ =>
      ⟨hρ, ?_, fun k hk => by rw [hH, Function.update_of_ne (show k ≠ x from hk)]⟩
    subst hH
    exact Rep.reparent ⟨hx, hv, hl, hr⟩ hnd (fun k _ hk => Function.update_of_ne hk _ _) (by simp [hv])

theorem nodup_rotR {a b e : IdTree} {y z : Nat} (h : (node (node a y b) z e).toList.Nodup) :
    y ≠ z ∧ y ∉ a.toList ∧ y ∉ b.toList ∧ y ∉ e.toList ∧ z ∉ a.toList ∧ z ∉ b.toList ∧
      z ∉ e.toList ∧ (∀ k ∈ b.toList, k ∉ a.toList ∧ k ∉ e.toList) := by
  simp only [toList_node, List.nodup_append, List.nodup_cons, List.mem_append, List.mem_cons] at h
  grind

theorem IdTree.Ids.children {l r : IdTree} {x : Nat} (h : (node l x r).Ids) : l.Ids ∧ r.Ids := by
  obtain ⟨hnd, hpos, hlt⟩ := h
  simp only [toList_node, List.nodup_append, List.nodup_cons] at hnd
  exact ⟨⟨hnd.1, fun k hk => hpos k (by simp [hk]), fun k hk => hlt k (by simp [hk])⟩,
    ⟨hnd.2.1.2, fun k hk => hpos k (by simp [hk]), fun k hk => hlt k (by simp [hk])⟩⟩

/-- No node of the subtree in a hole is the hole's parent. -/
theorem IdTree.Ids.ne_parentId {c : Ctx} {t : IdTree} (h : (c.plug t).Ids) :
    ∀ k ∈ t.toList, k ≠ c.parentId := by
  obtain ⟨ht, -, hout, -⟩ := h.hole
  intro k hk hkp
  rcases c.parentId_mem with h0 | hm
  · exact absurd (ht.pos k hk) (by omega)
  · exact hout k hk (hkp ▸ hm)

theorem IdTree.Ids.parentId_lt {c : Ctx} {t : IdTree} (h : (c.plug t).Ids) : c.parentId < Nat.pow 256 8 := by
  rcases c.parentId_mem with h0 | hm
  · rw [h0]
    decide
  · exact (h.hole.2.2.2 _ hm).2

/-- The root of a subtree is not an id outside it, unless both are 0. -/
theorem IdTree.rootId_ne {t : IdTree} {k : Nat} (hk : k ≠ 0) (hkt : k ∉ t.toList) : t.rootId ≠ k := by
  intro h
  by_cases h0 : t.rootId = 0
  · exact hk (h ▸ h0)
  · exact hkt (h ▸ rootId_mem h0)

/-- A right rotation at `z` rotates the tree the heap holds: the left child `y` takes `z`'s place
under `z`'s parent, `z` becomes `y`'s right child and takes `y`'s right subtree as its left one,
and both get their heights refreshed. -/
theorem rotateRight_yields (ht : t.Sound d) {c : Ctx} {a b e : IdTree} {y z : Nat}
    (hrep : RepNode (t.heap d) val c.parentId (node a y b) z e)
    (hctx : RepCtx (t.heap d) val t.root.value c z)
    (hids : (c.plug (node (node a y b) z e)).Ids) (hh : (node (node a y b) z e).height < 256) :
    TreeFile.Yields (TreeFile.rotateRight z) d t fun r ρ H =>
      r = y ∧ Rep H val c.parentId (node a y (node b z e)) ∧ RepCtx H val ρ c y := by
  obtain ⟨hz0, ⟨dz₁, dz₂, hHz⟩, ⟨hy0, hHy, ha, hb⟩, he⟩ := hrep
  obtain ⟨hT, hcnd, hout, hcids⟩ := hids.hole
  obtain ⟨hyz, hya, hyb, hye, hza, hzb, hze, hbae⟩ := nodup_rotR hT.nodup
  have hpT := hids.ne_parentId
  have hbIds := hT.children.1.children.2
  have hylt : y < Nat.pow 256 8 := hT.lt y (by simp)
  have hzlt : z < Nat.pow 256 8 := hT.lt z (by simp)
  have hby : b.rootId ≠ y := rootId_ne hy0 hyb
  have hbz : b.rootId ≠ z := rootId_ne hz0 hzb
  simp only [height_node] at hh
  unfold TreeFile.rotateRight
  refine (TreeFile.links_yields ht hz0 hHz).bind fun zl t₁ _ hs₁ ⟨hzl, hρ₁, hH₁⟩ => ?_
  have hzy : zl.left.value = y := hzl.left
  have hzp : zl.parent.value = c.parentId := hzl.parent
  dsimp only
  rw [hzy, hzp]
  have hy₁ : t₁.heap d y = some ⟨z, a.rootId, b.rootId, a.height, b.height, val y⟩ := by rw [hH₁]; exact hHy
  refine (TreeFile.links_yields hs₁ hy0 hy₁).bind fun yl t₂ _ hs₂ ⟨hyl, hρ₂, hH₂⟩ => ?_
  have hyb' : yl.right.value = b.rootId := hyl.right
  rw [hyb']
  -- `z` takes `y`'s right subtree, which then hangs below `z`
  have hz₂ : t₂.heap d z = some ⟨c.parentId, y, e.rootId, dz₁, dz₂, val z⟩ := by
    rw [hH₂, hH₁]
    exact hHz
  refine (TreeFile.change_yields hs₂ hz0 hz₂ (SlotEdit.setLeft (rootId_lt hbIds.lt))).bind
    fun _ t₃ _ hs₃ ⟨hρ₃, hH₃⟩ => ?_
  have hH₃' : ∀ k, k ≠ z → t₃.heap d k = t.heap d k := fun k hk => by
    rw [hH₃, Function.update_of_ne hk, hH₂, hH₁]
  refine TreeFile.Yields.bind_ite (reparent_yields hs₃ (hb.congr fun k hk => hH₃' k fun h => hzb (h ▸ hk))
    hbIds.nodup hzlt) fun _ t₄ _ hs₄ ⟨hρ₄, hb₄, hH₄⟩ => ?_
  -- `y` takes `z` as its right child and `z`'s parent
  have hy₄ : t₄.heap d y = some ⟨z, a.rootId, b.rootId, a.height, b.height, val y⟩ := by
    rw [hH₄ y (Ne.symm hby), hH₃' y hyz]
    exact hHy
  refine (TreeFile.change_yields hs₄ hy0 hy₄ ((SlotEdit.setRight hzlt).comp
    (SlotEdit.setParent hids.parentId_lt))).bind fun _ t₅ _ hs₅ ⟨hρ₅, hH₅⟩ => ?_
  have hz₅ : t₅.heap d z = some ⟨c.parentId, b.rootId, e.rootId, dz₁, dz₂, val z⟩ := by
    rw [hH₅, Function.update_of_ne (Ne.symm hyz), hH₄ z (Ne.symm hbz), hH₃, Function.update_self]
  refine (TreeFile.change_yields hs₅ hz0 hz₅ (SlotEdit.setParent hylt)).bind fun _ t₆ _ hs₆ ⟨hρ₆, hH₆⟩ => ?_
  have hH₆' : ∀ k, k ≠ z → k ≠ y → k ≠ b.rootId → t₆.heap d k = t.heap d k := fun k hkz hky hkb => by
    rw [hH₆, Function.update_of_ne hkz, hH₅, Function.update_of_ne hky, hH₄ k hkb, hH₃' k hkz]
  -- `y` takes `z`'s place below `z`'s parent
  have hctx₆ : RepCtx (t₆.heap d) val t₆.root.value c z := by
    rw [hρ₆, hρ₅, hρ₄, hρ₃, hρ₂, hρ₁]
    refine hctx.congr fun k hk => hH₆' k (fun h => hout z (by simp) (h ▸ hk))
      (fun h => hout y (by simp) (h ▸ hk)) fun h => ?_
    rcases eq_or_ne b.rootId 0 with h0 | h0
    · exact absurd (hcids k hk).1 (by omega)
    · exact hout _ (by simp [rootId_mem h0]) (h ▸ hk)
  refine (replaceChild_ctx_yields hs₆ hctx₆ (List.nodup_cons.mpr ⟨hout z (by simp), hcnd⟩) hz0 hylt).bind
    fun _ t₇ _ hs₇ ⟨hctx₇, hH₇⟩ => ?_
  have hH₇' : ∀ k ∈ (node (node a y b) z e).toList, k ≠ z → k ≠ y → k ≠ b.rootId → t₇.heap d k = t.heap d k :=
    fun k hk hkz hky hkb => by rw [hH₇ k (hpT k hk), hH₆' k hkz hky hkb]
  have hb₇ : Rep (t₇.heap d) val z b := hb₄.congr fun k hk => by
    have hkz : k ≠ z := fun h => hzb (h ▸ hk)
    have hky : k ≠ y := fun h => hyb (h ▸ hk)
    rw [hH₇ k (hpT k (by simp [hk])), hH₆, Function.update_of_ne hkz, hH₅, Function.update_of_ne hky]
  -- the outer subtrees hold no node that moved
  have hout_b : ∀ k, k ∈ a.toList ∨ k ∈ e.toList → k ≠ b.rootId := by
    intro k hk h
    rcases eq_or_ne b.rootId 0 with h0 | h0
    · exact absurd (hT.pos k (by rcases hk with hk | hk <;> simp [hk])) (by omega)
    · rcases hk with hk | hk
      · exact (hbae _ (rootId_mem h0)).1 (h ▸ hk)
      · exact (hbae _ (rootId_mem h0)).2 (h ▸ hk)
  have he₇ : Rep (t₇.heap d) val z e := he.congr fun k hk =>
    hH₇' k (by simp [hk]) (fun h => hze (h ▸ hk)) (fun h => hye (h ▸ hk)) (hout_b k (.inr hk))
  have ha₇ : Rep (t₇.heap d) val y a := ha.congr fun k hk =>
    hH₇' k (by simp [hk]) (fun h => hza (h ▸ hk)) (fun h => hya (h ▸ hk)) (hout_b k (.inl hk))
  have hz₇ : t₇.heap d z = some ⟨y, b.rootId, e.rootId, dz₁, dz₂, val z⟩ := by
    rw [hH₇ z (hpT z (by simp)), hH₆, Function.update_self]
  -- both rotated nodes get their heights from their new children
  refine (TreeFile.refresh_yields hs₇ hz0 hz₇ hb₇.root he₇.root).bind fun _ t₈ _ hs₈ ⟨hρ₈, hH₈⟩ => ?_
  have hz₈ : t₈.heap d z = some ⟨y, b.rootId, e.rootId, b.height, e.height, val z⟩ := by
    rw [hH₈, Function.update_self, hb₇.depthOf (by omega), he₇.depthOf (by omega)]
  have hH₈' : ∀ k, k ≠ z → t₈.heap d k = t₇.heap d k := fun k hk => by rw [hH₈, Function.update_of_ne hk]
  have hy₈ : t₈.heap d y = some ⟨c.parentId, a.rootId, z, a.height, b.height, val y⟩ := by
    rw [hH₈' y hyz, hH₇ y (hpT y (by simp)), hH₆, Function.update_of_ne hyz, hH₅, Function.update_self]
  have ha₈ : Rep (t₈.heap d) val y a := ha₇.congr fun k hk => hH₈' k fun h => hza (h ▸ hk)
  refine (TreeFile.refresh_yields hs₈ hy0 hy₈ ha₈.root (.inr (by rw [hz₈]; rfl))).bind
    fun _ t₉ _ hs₉ ⟨hρ₉, hH₉⟩ => ?_
  have hdz : (t₈.heap d).depthOf z = (node b z e).height := by
    simp only [Heap.depthOf, hz0, if_false, hz₈, Option.map_some, Option.getD_some, NodeView.depth,
      height_node]
    omega
  have hH₉' : ∀ k, k ≠ y → t₉.heap d k = t₈.heap d k := fun k hk => by rw [hH₉, Function.update_of_ne hk]
  refine TreeFile.Yields.pure hs₉ ⟨rfl, ⟨hy0, ?_, ?_, hz0, ?_, ?_, ?_⟩, ?_⟩
  · rw [hH₉, Function.update_self, ha₈.depthOf (by omega), hdz]
    rfl
  · exact ha₈.congr fun k hk => hH₉' k fun h => hya (h ▸ hk)
  · rw [hH₉' z (Ne.symm hyz), hz₈]
  · exact hb₇.congr fun k hk => by
      rw [hH₉' k fun h => hyb (h ▸ hk), hH₈' k fun h => hzb (h ▸ hk)]
  · exact he₇.congr fun k hk => by
      rw [hH₉' k fun h => hye (h ▸ hk), hH₈' k fun h => hze (h ▸ hk)]
  · rw [hρ₉, hρ₈]
    exact hctx₇.congr fun k hk => by
      rw [hH₉' k fun h => hout y (by simp) (h ▸ hk), hH₈' k fun h => hout z (by simp) (h ▸ hk)]

theorem nodup_rotL {a b e : IdTree} {y z : Nat} (h : (node a z (node b y e)).toList.Nodup) :
    y ≠ z ∧ y ∉ a.toList ∧ y ∉ b.toList ∧ y ∉ e.toList ∧ z ∉ a.toList ∧ z ∉ b.toList ∧
      z ∉ e.toList ∧ (∀ k ∈ b.toList, k ∉ a.toList ∧ k ∉ e.toList) := by
  simp only [toList_node, List.nodup_append, List.nodup_cons, List.mem_append, List.mem_cons] at h
  grind

/-- A left rotation at `z` rotates the tree the heap holds: the right child `y` takes `z`'s place
under `z`'s parent, `z` becomes `y`'s left child and takes `y`'s left subtree as its right one,
and both get their heights refreshed. -/
theorem rotateLeft_yields (ht : t.Sound d) {c : Ctx} {a b e : IdTree} {y z : Nat}
    (hrep : RepNode (t.heap d) val c.parentId a z (node b y e))
    (hctx : RepCtx (t.heap d) val t.root.value c z)
    (hids : (c.plug (node a z (node b y e))).Ids) (hh : (node a z (node b y e)).height < 256) :
    TreeFile.Yields (TreeFile.rotateLeft z) d t fun r ρ H =>
      r = y ∧ Rep H val c.parentId (node (node a z b) y e) ∧ RepCtx H val ρ c y := by
  obtain ⟨hz0, ⟨dz₁, dz₂, hHz⟩, ha, hy0, hHy, hb, he⟩ := hrep
  obtain ⟨hT, hcnd, hout, hcids⟩ := hids.hole
  obtain ⟨hyz, hya, hyb, hye, hza, hzb, hze, hbae⟩ := nodup_rotL hT.nodup
  have hpT := hids.ne_parentId
  have hbIds := hT.children.2.children.1
  have hylt : y < Nat.pow 256 8 := hT.lt y (by simp)
  have hzlt : z < Nat.pow 256 8 := hT.lt z (by simp)
  have hby : b.rootId ≠ y := rootId_ne hy0 hyb
  have hbz : b.rootId ≠ z := rootId_ne hz0 hzb
  simp only [height_node] at hh
  unfold TreeFile.rotateLeft
  refine (TreeFile.links_yields ht hz0 hHz).bind fun zl t₁ _ hs₁ ⟨hzl, hρ₁, hH₁⟩ => ?_
  have hzy : zl.right.value = y := hzl.right
  have hzp : zl.parent.value = c.parentId := hzl.parent
  dsimp only
  rw [hzy, hzp]
  have hy₁ : t₁.heap d y = some ⟨z, b.rootId, e.rootId, b.height, e.height, val y⟩ := by rw [hH₁]; exact hHy
  refine (TreeFile.links_yields hs₁ hy0 hy₁).bind fun yl t₂ _ hs₂ ⟨hyl, hρ₂, hH₂⟩ => ?_
  have hyb' : yl.left.value = b.rootId := hyl.left
  rw [hyb']
  -- `z` takes `y`'s left subtree, which then hangs below `z`
  have hz₂ : t₂.heap d z = some ⟨c.parentId, a.rootId, y, dz₁, dz₂, val z⟩ := by
    rw [hH₂, hH₁]
    exact hHz
  refine (TreeFile.change_yields hs₂ hz0 hz₂ (SlotEdit.setRight (rootId_lt hbIds.lt))).bind
    fun _ t₃ _ hs₃ ⟨hρ₃, hH₃⟩ => ?_
  have hH₃' : ∀ k, k ≠ z → t₃.heap d k = t.heap d k := fun k hk => by
    rw [hH₃, Function.update_of_ne hk, hH₂, hH₁]
  refine TreeFile.Yields.bind_ite (reparent_yields hs₃ (hb.congr fun k hk => hH₃' k fun h => hzb (h ▸ hk))
    hbIds.nodup hzlt) fun _ t₄ _ hs₄ ⟨hρ₄, hb₄, hH₄⟩ => ?_
  -- `y` takes `z` as its left child and `z`'s parent
  have hy₄ : t₄.heap d y = some ⟨z, b.rootId, e.rootId, b.height, e.height, val y⟩ := by
    rw [hH₄ y (Ne.symm hby), hH₃' y hyz]
    exact hHy
  refine (TreeFile.change_yields hs₄ hy0 hy₄ ((SlotEdit.setLeft hzlt).comp
    (SlotEdit.setParent hids.parentId_lt))).bind fun _ t₅ _ hs₅ ⟨hρ₅, hH₅⟩ => ?_
  have hz₅ : t₅.heap d z = some ⟨c.parentId, a.rootId, b.rootId, dz₁, dz₂, val z⟩ := by
    rw [hH₅, Function.update_of_ne (Ne.symm hyz), hH₄ z (Ne.symm hbz), hH₃, Function.update_self]
  refine (TreeFile.change_yields hs₅ hz0 hz₅ (SlotEdit.setParent hylt)).bind fun _ t₆ _ hs₆ ⟨hρ₆, hH₆⟩ => ?_
  have hH₆' : ∀ k, k ≠ z → k ≠ y → k ≠ b.rootId → t₆.heap d k = t.heap d k := fun k hkz hky hkb => by
    rw [hH₆, Function.update_of_ne hkz, hH₅, Function.update_of_ne hky, hH₄ k hkb, hH₃' k hkz]
  -- `y` takes `z`'s place below `z`'s parent
  have hctx₆ : RepCtx (t₆.heap d) val t₆.root.value c z := by
    rw [hρ₆, hρ₅, hρ₄, hρ₃, hρ₂, hρ₁]
    refine hctx.congr fun k hk => hH₆' k (fun h => hout z (by simp) (h ▸ hk))
      (fun h => hout y (by simp) (h ▸ hk)) fun h => ?_
    rcases eq_or_ne b.rootId 0 with h0 | h0
    · exact absurd (hcids k hk).1 (by omega)
    · exact hout _ (by simp [rootId_mem h0]) (h ▸ hk)
  refine (replaceChild_ctx_yields hs₆ hctx₆ (List.nodup_cons.mpr ⟨hout z (by simp), hcnd⟩) hz0 hylt).bind
    fun _ t₇ _ hs₇ ⟨hctx₇, hH₇⟩ => ?_
  have hH₇' : ∀ k ∈ (node a z (node b y e)).toList, k ≠ z → k ≠ y → k ≠ b.rootId → t₇.heap d k = t.heap d k :=
    fun k hk hkz hky hkb => by rw [hH₇ k (hpT k hk), hH₆' k hkz hky hkb]
  have hb₇ : Rep (t₇.heap d) val z b := hb₄.congr fun k hk => by
    have hkz : k ≠ z := fun h => hzb (h ▸ hk)
    have hky : k ≠ y := fun h => hyb (h ▸ hk)
    rw [hH₇ k (hpT k (by simp [hk])), hH₆, Function.update_of_ne hkz, hH₅, Function.update_of_ne hky]
  -- the outer subtrees hold no node that moved
  have hout_b : ∀ k, k ∈ a.toList ∨ k ∈ e.toList → k ≠ b.rootId := by
    intro k hk h
    rcases eq_or_ne b.rootId 0 with h0 | h0
    · exact absurd (hT.pos k (by rcases hk with hk | hk <;> simp [hk])) (by omega)
    · rcases hk with hk | hk
      · exact (hbae _ (rootId_mem h0)).1 (h ▸ hk)
      · exact (hbae _ (rootId_mem h0)).2 (h ▸ hk)
  have he₇ : Rep (t₇.heap d) val y e := he.congr fun k hk =>
    hH₇' k (by simp [hk]) (fun h => hze (h ▸ hk)) (fun h => hye (h ▸ hk)) (hout_b k (.inr hk))
  have ha₇ : Rep (t₇.heap d) val z a := ha.congr fun k hk =>
    hH₇' k (by simp [hk]) (fun h => hza (h ▸ hk)) (fun h => hya (h ▸ hk)) (hout_b k (.inl hk))
  have hz₇ : t₇.heap d z = some ⟨y, a.rootId, b.rootId, dz₁, dz₂, val z⟩ := by
    rw [hH₇ z (hpT z (by simp)), hH₆, Function.update_self]
  -- both rotated nodes get their heights from their new children
  refine (TreeFile.refresh_yields hs₇ hz0 hz₇ ha₇.root hb₇.root).bind fun _ t₈ _ hs₈ ⟨hρ₈, hH₈⟩ => ?_
  have hz₈ : t₈.heap d z = some ⟨y, a.rootId, b.rootId, a.height, b.height, val z⟩ := by
    rw [hH₈, Function.update_self, ha₇.depthOf (by omega), hb₇.depthOf (by omega)]
  have hH₈' : ∀ k, k ≠ z → t₈.heap d k = t₇.heap d k := fun k hk => by rw [hH₈, Function.update_of_ne hk]
  have hy₈ : t₈.heap d y = some ⟨c.parentId, z, e.rootId, b.height, e.height, val y⟩ := by
    rw [hH₈' y hyz, hH₇ y (hpT y (by simp)), hH₆, Function.update_of_ne hyz, hH₅, Function.update_self]
  have he₈ : Rep (t₈.heap d) val y e := he₇.congr fun k hk => hH₈' k fun h => hze (h ▸ hk)
  refine (TreeFile.refresh_yields hs₈ hy0 hy₈ (.inr (by rw [hz₈]; rfl)) he₈.root).bind
    fun _ t₉ _ hs₉ ⟨hρ₉, hH₉⟩ => ?_
  have hdz : (t₈.heap d).depthOf z = (node a z b).height := by
    simp only [Heap.depthOf, hz0, if_false, hz₈, Option.map_some, Option.getD_some, NodeView.depth,
      height_node]
    omega
  have hH₉' : ∀ k, k ≠ y → t₉.heap d k = t₈.heap d k := fun k hk => by rw [hH₉, Function.update_of_ne hk]
  refine TreeFile.Yields.pure hs₉ ⟨rfl, ⟨hy0, ?_, ⟨hz0, ?_, ?_, ?_⟩, ?_⟩, ?_⟩
  · rw [hH₉, Function.update_self, hdz, he₈.depthOf (by omega)]
    rfl
  · rw [hH₉' z (Ne.symm hyz), hz₈]
  · exact ha₇.congr fun k hk => by
      rw [hH₉' k fun h => hya (h ▸ hk), hH₈' k fun h => hza (h ▸ hk)]
  · exact hb₇.congr fun k hk => by
      rw [hH₉' k fun h => hyb (h ▸ hk), hH₈' k fun h => hzb (h ▸ hk)]
  · exact he₈.congr fun k hk => hH₉' k fun h => hye (h ▸ hk)
  · rw [hρ₉, hρ₈]
    exact hctx₇.congr fun k hk => by
      rw [hH₉' k fun h => hout y (by simp) (h ▸ hk), hH₈' k fun h => hout z (by simp) (h ▸ hk)]

theorem IdTree.Ids.of_toList {t t' : IdTree} (h : t.Ids) (heq : t'.toList = t.toList) : t'.Ids :=
  ⟨heq ▸ h.nodup, heq ▸ h.pos, heq ▸ h.lt⟩

/-- Rebalancing a node whose cached heights are exact performs `rebal` on the tree the heap
holds, and answers the id of the subtree's new root. -/
theorem rebalance_yields (ht : t.Sound d) {c : Ctx} {l r : IdTree} {x : Nat}
    (hrep : Rep (t.heap d) val c.parentId (node l x r)) (hctx : RepCtx (t.heap d) val t.root.value c x)
    (hids : (c.plug (node l x r)).Ids) (hh : (node l x r).height < 255) :
    TreeFile.Yields (TreeFile.rebalance x) d t fun top ρ H =>
      top = (rebal (node l x r)).rootId ∧ Rep H val c.parentId (rebal (node l x r)) ∧ RepCtx H val ρ c top := by
  obtain ⟨hx0, hHx, hl, hr⟩ := hrep
  unfold TreeFile.rebalance
  refine (TreeFile.balance_yields ht hx0 hHx).bind fun bal t₁ _ hs₁ ⟨hbal, hρ₁, hH₁⟩ => ?_
  dsimp only at hbal
  rw [← hH₁] at hHx hl hr
  rw [← hH₁, ← hρ₁] at hctx
  split
  · -- left heavy: the left child rises, after a left rotation below it if it leans right
    have hleft : r.height + 1 < l.height := by omega
    obtain ⟨a, y, m, rfl⟩ := exists_node_of_height_pos (show 0 < l.height by omega)
    rw [rebal_of_left hleft]
    obtain ⟨hy0, hHy, ha, hm⟩ := hl
    refine (TreeFile.links_yields hs₁ hx0 hHx).bind fun xl t₂ _ hs₂ ⟨hxl, hρ₂, hH₂⟩ => ?_
    have hxy : xl.left.value = y := hxl.left
    dsimp only
    rw [hxy]
    rw [← hH₂] at hHx hHy ha hm hr
    rw [← hH₂, ← hρ₂] at hctx
    refine (TreeFile.balance_yields hs₂ hy0 hHy).bind fun bl t₃ _ hs₃ ⟨hbl, hρ₃, hH₃⟩ => ?_
    dsimp only at hbl
    rw [← hH₃] at hHx hHy ha hm hr
    rw [← hH₃, ← hρ₃] at hctx
    split
    · -- the left child leans right: rotate it left first
      have hlean : a.height < m.height := by omega
      obtain ⟨m₁, w, m₂, rfl⟩ := exists_node_of_height_pos (show 0 < m.height by omega)
      rw [if_pos (by simpa using hlean)]
      refine (rotateLeft_yields hs₃ (c := .inL c x r) ⟨hy0, ⟨_, _, hHy⟩, ha, hm⟩ ⟨hx0, ⟨_, _, hHx⟩, hr, hctx⟩
        hids (by simp only [height_node] at hh ⊢; omega)).discard.bind
        fun _ t₄ _ hs₄ ⟨_, rfl, hw₄, hx₄, ⟨dx₁, dx₂, hHx₄⟩, hr₄, hctx₄⟩ => ?_
      have hids' : (c.plug (node (node (node a y m₁) w m₂) x r)).Ids :=
        hids.of_toList (Ctx.toList_plug_congr c (by simp))
      refine (rotateRight_yields hs₄ ⟨hx0, ⟨dx₁, dx₂, hHx₄⟩, hw₄, hr₄⟩ hctx₄ hids'
        (by simp only [height_node] at hh ⊢; omega)).mono fun top ρ H ⟨htop, hrep', hctx'⟩ =>
        ⟨htop, hrep', htop ▸ hctx'⟩
    · have hlean : ¬ a.height < m.height := by omega
      rw [if_neg (by simpa using hlean)]
      exact (rotateRight_yields hs₃ ⟨hx0, ⟨_, _, hHx⟩, ⟨hy0, hHy, ha, hm⟩, hr⟩ hctx hids
        (by simp only [height_node] at hh ⊢; omega)).mono fun top ρ H ⟨htop, hrep', hctx'⟩ =>
        ⟨htop, hrep', htop ▸ hctx'⟩
  · split
    · -- right heavy: the right child rises, after a right rotation below it if it leans left
      have hright : l.height + 1 < r.height := by omega
      obtain ⟨m, y, e, rfl⟩ := exists_node_of_height_pos (show 0 < r.height by omega)
      rw [rebal_of_right (by omega) hright]
      obtain ⟨hy0, hHy, hm, he⟩ := hr
      refine (TreeFile.links_yields hs₁ hx0 hHx).bind fun xl t₂ _ hs₂ ⟨hxl, hρ₂, hH₂⟩ => ?_
      have hxy : xl.right.value = y := hxl.right
      dsimp only
      rw [hxy]
      rw [← hH₂] at hHx hHy hm he hl
      rw [← hH₂, ← hρ₂] at hctx
      refine (TreeFile.balance_yields hs₂ hy0 hHy).bind fun bl t₃ _ hs₃ ⟨hbl, hρ₃, hH₃⟩ => ?_
      dsimp only at hbl
      rw [← hH₃] at hHx hHy hm he hl
      rw [← hH₃, ← hρ₃] at hctx
      split
      · have hlean : e.height < m.height := by omega
        obtain ⟨m₁, w, m₂, rfl⟩ := exists_node_of_height_pos (show 0 < m.height by omega)
        rw [if_pos (by simpa using hlean)]
        refine (rotateRight_yields hs₃ (c := .inR l x c) ⟨hy0, ⟨_, _, hHy⟩, hm, he⟩ ⟨hx0, ⟨_, _, hHx⟩, hl, hctx⟩
          hids (by simp only [height_node] at hh ⊢; omega)).discard.bind
          fun _ t₄ _ hs₄ ⟨_, rfl, hw₄, hx₄, ⟨dx₁, dx₂, hHx₄⟩, hl₄, hctx₄⟩ => ?_
        have hids' : (c.plug (node l x (node m₁ w (node m₂ y e)))).Ids :=
          hids.of_toList (Ctx.toList_plug_congr c (by simp))
        exact (rotateLeft_yields hs₄ ⟨hx0, ⟨dx₁, dx₂, hHx₄⟩, hl₄, hw₄⟩ hctx₄ hids'
          (by simp only [height_node] at hh ⊢; omega)).mono fun top ρ H ⟨htop, hrep', hctx'⟩ =>
          ⟨htop, hrep', htop ▸ hctx'⟩
      · have hlean : ¬ e.height < m.height := by omega
        rw [if_neg (by simpa using hlean)]
        exact (rotateLeft_yields hs₃ ⟨hx0, ⟨_, _, hHx⟩, hl, ⟨hy0, hHy, hm, he⟩⟩ hctx hids
          (by simp only [height_node] at hh ⊢; omega)).mono fun top ρ H ⟨htop, hrep', hctx'⟩ =>
          ⟨htop, hrep', htop ▸ hctx'⟩
    · -- in balance: nothing moves
      rw [rebal_of_le (by omega) (by omega)]
      exact TreeFile.Yields.pure hs₁ ⟨rfl, ⟨hx0, hHx, hl, hr⟩, hctx⟩

theorem nodup_node {l r : IdTree} {x : Nat} (h : (node l x r).toList.Nodup) : x ∉ l.toList ∧ x ∉ r.toList := by
  simp only [toList_node, List.nodup_append, List.nodup_cons, List.mem_cons] at h
  exact ⟨fun hx => h.2.2 x hx x (.inl rfl) rfl, h.2.1.1⟩

/-- The root of a nonempty held tree is a node whose parent link is `p`. -/
theorem Rep.rootView {t : IdTree} (h : Rep H val p t) (hne : t ≠ nil) :
    t.rootId ≠ 0 ∧ ∃ v : NodeView, H t.rootId = some v ∧ v.parent = p := by
  cases t with
  | nil => exact absurd rfl hne
  | node l x r => exact ⟨h.1, _, h.2.1, rfl⟩

theorem rebal_node_ne_nil (l : IdTree) (x : Nat) (r : IdTree) : rebal (node l x r) ≠ nil := by
  intro h
  have := toList_rebal (node l x r)
  rw [h] at this
  simp at this

theorem TreeFile.retraceFor_zero (fuel : Nat) : TreeFile.retraceFor fuel 0 = pure () := by
  cases fuel with
  | zero => rfl
  | succ n => rfl

/-- One step up: the node's heights are refreshed, it is rebalanced, and the walk goes on from
the hole's parent, with the rebalanced subtree in the hole. -/
theorem retraceFor_succ (ht : t.Sound d) {c : Ctx} {l r : IdTree} {x : Nat} (fuel : Nat)
    (hrep : RepNode (t.heap d) val c.parentId l x r) (hctx : RepCtx (t.heap d) val t.root.value c x)
    (hids : (c.plug (node l x r)).Ids) (hh : (node l x r).height < 255) {Q : Unit → Nat → Heap → Prop}
    (hk : ∀ t₁ : TreeFile, t₁.Sound d → Rep (t₁.heap d) val c.parentId (rebal (node l x r)) →
      RepCtx (t₁.heap d) val t₁.root.value c (rebal (node l x r)).rootId →
      TreeFile.Yields (TreeFile.retraceFor fuel c.parentId) d t₁ Q) :
    TreeFile.Yields (TreeFile.retraceFor (fuel + 1) x) d t Q := by
  obtain ⟨hx0, ⟨a, b, hHx⟩, hl, hr⟩ := hrep
  obtain ⟨hT, -, hout, -⟩ := hids.hole
  obtain ⟨hxl, hxr⟩ := nodup_node hT.nodup
  simp only [height_node] at hh
  rw [TreeFile.retraceFor, if_neg (by simpa using hx0)]
  refine (TreeFile.refresh_yields ht hx0 hHx hl.root hr.root).bind fun _ t₁ _ hs₁ ⟨hρ₁, hH₁⟩ => ?_
  -- the node's own heights are now exact
  have hH₁' : ∀ k, k ≠ x → t₁.heap d k = t.heap d k := fun k hk => by rw [hH₁, Function.update_of_ne hk]
  have hrep₁ : Rep (t₁.heap d) val c.parentId (node l x r) := by
    refine ⟨hx0, ?_, hl.congr fun k hk => hH₁' k fun h => hxl (h ▸ hk),
      hr.congr fun k hk => hH₁' k fun h => hxr (h ▸ hk)⟩
    rw [hH₁, Function.update_self, hl.depthOf (by omega), hr.depthOf (by omega)]
  have hctx₁ : RepCtx (t₁.heap d) val t₁.root.value c x := by
    rw [hρ₁]
    exact hctx.congr fun k hk => hH₁' k fun h => hout x (by simp) (h ▸ hk)
  refine (rebalance_yields hs₁ hrep₁ hctx₁ hids (by simp only [height_node]; omega)).bind
    fun top t₂ _ hs₂ ⟨htop, hrep₂, hctx₂⟩ => ?_
  obtain ⟨htop0, v, hv, hvp⟩ := hrep₂.rootView (rebal_node_ne_nil l x r)
  rw [← htop] at htop0 hv
  refine (TreeFile.links_yields hs₂ htop0 hv).bind fun s t₃ _ hs₃ ⟨hsv, hρ₃, hH₃⟩ => ?_
  have hsp : s.parent.value = c.parentId := hsv.parent.trans hvp
  rw [hsp]
  refine hk t₃ hs₃ (by rw [hH₃]; exact hrep₂) ?_
  rw [hH₃, hρ₃, ← htop]
  exact hctx₂

/-- Walking up from a node whose subtrees the heap holds exactly rebalances every node on the
way to the root: the heap then holds `c.retraceUp (rebal (node l x r))` below no parent, and the
root id is that tree's root. -/
theorem retraceFor_yields : ∀ (c : Ctx) {t : TreeFile} {l r : IdTree} {x : Nat} (fuel : Nat), t.Sound d →
    RepNode (t.heap d) val c.parentId l x r → RepCtx (t.heap d) val t.root.value c x →
    (c.plug (node l x r)).Ids → (c.plug (node l x r)).height < 255 → c.length < fuel →
    TreeFile.Yields (TreeFile.retraceFor fuel x) d t fun _ ρ H =>
      Rep H val 0 (c.retraceUp (rebal (node l x r))) ∧ ρ = (c.retraceUp (rebal (node l x r))).rootId
  | _, _, _, _, _, 0, _, _, _, _, _, hfuel => absurd hfuel (Nat.not_lt_zero _)
  | .top, _, l, r, x, fuel + 1, ht, hrep, hctx, hids, hh, _ =>
    retraceFor_succ ht fuel hrep hctx hids hh fun t₁ hs₁ hrep₁ hctx₁ => by
      rw [show Ctx.parentId .top = 0 from rfl, TreeFile.retraceFor_zero]
      exact TreeFile.Yields.pure hs₁ ⟨hrep₁, hctx₁⟩
  | .inL c y e, _, l, r, x, fuel + 1, ht, hrep, hctx, hids, hh, hfuel =>
    retraceFor_succ ht fuel hrep hctx hids (lt_of_le_of_lt (Ctx.height_le_plug _ _) hh)
      fun t₁ hs₁ hrep₁ hctx₁ => by
      obtain ⟨hy0, ⟨a, b, hHy⟩, he, hctx'⟩ := hctx₁
      have heq : (c.plug (node (rebal (node l x r)) y e)).toList = ((Ctx.inL c y e).plug (node l x r)).toList :=
        Ctx.toList_plug_congr c (by simp)
      exact retraceFor_yields c fuel hs₁ ⟨hy0, ⟨a, b, hHy⟩, hrep₁, he⟩ hctx' (hids.of_toList heq)
        (lt_of_le_of_lt (Ctx.height_plug_le c (by
          have := height_rebal_le (node l x r)
          simp only [height_node] at this ⊢
          omega)) hh)
        (by simp only [Ctx.length] at hfuel; omega)
  | .inR e y c, _, l, r, x, fuel + 1, ht, hrep, hctx, hids, hh, hfuel =>
    retraceFor_succ ht fuel hrep hctx hids (lt_of_le_of_lt (Ctx.height_le_plug _ _) hh)
      fun t₁ hs₁ hrep₁ hctx₁ => by
      obtain ⟨hy0, ⟨a, b, hHy⟩, he, hctx'⟩ := hctx₁
      have heq : (c.plug (node e y (rebal (node l x r)))).toList = ((Ctx.inR e y c).plug (node l x r)).toList :=
        Ctx.toList_plug_congr c (by simp)
      exact retraceFor_yields c fuel hs₁ ⟨hy0, ⟨a, b, hHy⟩, he, hrep₁⟩ hctx' (hids.of_toList heq)
        (lt_of_le_of_lt (Ctx.height_plug_le c (by
          have := height_rebal_le (node l x r)
          simp only [height_node] at this ⊢
          omega)) hh)
        (by simp only [Ctx.length] at hfuel; omega)

/-- Retracing from the parent of a hole whose subtree the heap holds exactly performs
`Ctx.retraceUp` on the whole tree; at the top there is nothing to do. -/
theorem retraceFor_hole_yields (ht : t.Sound d) {C : Ctx} {s : IdTree} (fuel : Nat)
    (hrep : Rep (t.heap d) val C.parentId s) (hctx : RepCtx (t.heap d) val t.root.value C s.rootId)
    (hids : (C.plug s).Ids) (hh : (C.plug s).height < 255) (hfuel : C.length ≤ fuel) :
    TreeFile.Yields (TreeFile.retraceFor fuel C.parentId) d t fun _ ρ H =>
      Rep H val 0 (C.retraceUp s) ∧ ρ = (C.retraceUp s).rootId := by
  cases C with
  | top =>
    rw [show Ctx.parentId .top = 0 from rfl, TreeFile.retraceFor_zero]
    exact TreeFile.Yields.pure ht ⟨hrep, hctx⟩
  | inL C y r =>
    obtain ⟨hy0, hyv, hr, hctx'⟩ := hctx
    exact retraceFor_yields C fuel ht ⟨hy0, hyv, hrep, hr⟩ hctx' hids hh
      (by simp only [Ctx.length] at hfuel; omega)
  | inR l y C =>
    obtain ⟨hy0, hyv, hl, hctx'⟩ := hctx
    exact retraceFor_yields C fuel ht ⟨hy0, hyv, hl, hrep⟩ hctx' hids hh
      (by simp only [Ctx.length] at hfuel; omega)

end ColumnDb.Tree
