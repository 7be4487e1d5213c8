import Mathlib
import ColumnDb.Proofs.TreeRep

/-!
# Hanging a node into the tree

A node with no links is hung into the tree by descending from the root, going
left exactly below a node whose value is larger (`goesLeft`), and hanging it
at the first free child place; the walk back up then rebalances. On trees of
ids this is `Ctx.descent` followed by `Ctx.retraceUp` (`attach_yields`), so by
`Ctx.toList_plug_descent` the new id lands right after the last id whose
value is not larger.
-/

set_option autoImplicit false

namespace ColumnDb.Tree

open ColumnDb.Slot ColumnDb.Disk IdTree

/-- Whether a new node `id` goes left below node `y`: exactly when `y`'s value is larger. -/
def goesLeft (val : Nat → Value) (id y : Nat) : Bool := (val y).compare (val id) == .gt

/-- The tree with a new leaf `a` hung where `goLeft` leads and rebalanced on the way up. -/
def IdTree.hang (t : IdTree) (goLeft : Nat → Bool) (a : Nat) : IdTree :=
  (Ctx.top.descent goLeft t).retraceUp (node nil a nil)

/-- Hanging a leaf into a balanced tree leaves it balanced and at most one level higher. -/
theorem IdTree.balanced_hang {t : IdTree} (h : t.Balanced) (goLeft : Nat → Bool) (a : Nat) :
    (t.hang goLeft a).Balanced ∧ t.height ≤ (t.hang goLeft a).height ∧
      (t.hang goLeft a).height ≤ t.height + 1 := by
  have hplug := Ctx.plug_descent goLeft .top t
  have h₀ : ((Ctx.top.descent goLeft t).plug nil).Balanced := by rw [hplug]; exact h
  obtain ⟨hb, h₁, h₂⟩ := Ctx.balanced_retraceUp_grow _ h₀ (t := node nil a nil)
    ⟨trivial, trivial, by simp, by simp⟩ (by simp) (by simp)
  rw [hplug] at h₁ h₂
  exact ⟨hb, h₁, h₂⟩

/-- In a tree whose ids are ordered so that `goLeft` holds from some point on, the new id is
hung right after the last id that `goLeft` does not hold of. -/
theorem IdTree.toList_hang {t : IdTree} {goLeft : Nat → Bool}
    (h : t.toList.Pairwise fun x y => goLeft x = true → goLeft y = true) (a : Nat) :
    (t.hang goLeft a).toList = insertAfterLast (fun y => !goLeft y) a t.toList := by
  rw [hang, Ctx.toList_retraceUp, Ctx.toList_plug_descent goLeft a .top t h]
  simp [Ctx.before, Ctx.after]

variable {d : Disk} {val : Nat → Value}

/-- The ids of a tree with a new leaf: the old ones and the leaf's. -/
theorem IdTree.Ids.leaf {C : Ctx} {a : Nat} (h : (C.plug nil).Ids) (ha : a ∉ (C.plug nil).toList)
    (ha0 : a ≠ 0) (halt : a < Nat.pow 256 8) : (C.plug (node nil a nil)).Ids := by
  have hperm := Ctx.toList_plug_leaf_perm C a
  refine ⟨hperm.nodup_iff.mpr (List.nodup_cons.mpr ⟨ha, h.nodup⟩), fun k hk => ?_, fun k hk => ?_⟩
  · rcases List.mem_cons.mp (hperm.mem_iff.mp hk) with rfl | hk
    · exact Nat.pos_of_ne_zero ha0
    · exact h.pos k hk
  · rcases List.mem_cons.mp (hperm.mem_iff.mp hk) with rfl | hk
    · exact halt
    · exact h.lt k hk

/-- Descending from node `x` to the free place for a detached node `id` hangs `id` there: the
heap then holds the leaf `id` below its new parent, in the context the descent reaches. -/
theorem descend_yields {id : Nat} (root : Nat) (hid0 : id ≠ 0) (hidlt : id < Nat.pow 256 8) :
    ∀ (fuel : Nat) (c : Ctx) (l r : IdTree) (x : Nat) {t : TreeFile}, t.Sound d →
      Rep (t.heap d) val c.parentId (node l x r) → RepCtx (t.heap d) val t.root.value c x →
      t.heap d id = some ⟨0, 0, 0, 0, 0, val id⟩ → id ∉ (c.plug (node l x r)).toList →
      (c.plug (node l x r)).Ids → (node l x r).height ≤ fuel →
      TreeFile.Yields (TreeFile.descend id (val id) root fuel x) d t fun P ρ H =>
        P = (c.descent (goesLeft val id) (node l x r)).parentId ∧ Rep H val P (node nil id nil) ∧
          RepCtx H val ρ (c.descent (goesLeft val id) (node l x r)) id
  | 0, _, _, _, _, _, _, _, _, _, _, _, hh => by simp at hh
  | fuel + 1, c, l, r, x, t, ht, hrep, hctx, hidv, hidT, hids, hh => by
    obtain ⟨hx0, hHx, hl, hr⟩ := hrep
    obtain ⟨hT, -, hout, -⟩ := hids.hole
    have hidx : id ≠ x := fun h => hidT (by rw [Ctx.toList_plug]; simp [h])
    have hxlt : x < Nat.pow 256 8 := hT.lt x (by simp)
    obtain ⟨hxl, hxr⟩ := nodup_node hT.nodup
    rw [TreeFile.descend]
    refine (TreeFile.node_yields ht hx0 hHx).bind fun n t₁ _ hs₁ hpost => ?_
    obtain ⟨hn, hρ₁, hH₁⟩ := hpost
    have hnv : n.value = val x := congrArg NodeView.value hn
    have hnl : n.slot.left.value = l.rootId := congrArg NodeView.left hn
    have hnr : n.slot.right.value = r.rootId := congrArg NodeView.right hn
    dsimp only
    rw [hnv, hnl, hnr, show ((val x).compare (val id) == .gt) = goesLeft val id x from rfl, Ctx.descent]
    rw [← hH₁] at hHx hl hr hidv
    rw [← hH₁, ← hρ₁] at hctx
    -- the new node and `x`'s other side are untouched by hanging the leaf below `x`
    have hother : ∀ s : IdTree, (∀ k ∈ s.toList, k ∈ (node l x r).toList) → x ∉ s.toList →
        ∀ k ∈ s.toList, k ≠ x ∧ k ≠ id := fun s hs hxs k hk =>
      ⟨fun h => hxs (h ▸ hk), fun h => hidT (by
        rw [Ctx.toList_plug, ← h]
        exact List.mem_append_left _ (List.mem_append_right _ (hs k hk)))⟩
    have hctxIds : ∀ k ∈ c.ids, k ≠ x ∧ k ≠ id := fun k hk =>
      ⟨fun h => hout x (by simp) (h ▸ hk), fun h => hidT (by
        rw [Ctx.toList_plug]
        simp only [Ctx.ids, List.mem_append] at hk
        rcases hk with hk | hk <;> simp [← h, hk])⟩
    cases hg : goesLeft val id x with
    | true =>
      simp only [if_true]
      cases l with
      | nil =>
        -- the left place of `x` is free: `id` hangs there
        simp only [rootId_nil, beq_self_eq_true, if_true, Ctx.descent]
        refine (TreeFile.change_yields hs₁ hx0 hHx (SlotEdit.setLeft hidlt)).bind
          fun _ t₂ _ hs₂ hpost => ?_
        obtain ⟨hρ₂, hH₂⟩ := hpost
        have hid₂ : t₂.heap d id = some ⟨0, 0, 0, 0, 0, val id⟩ := by
          rw [hH₂, Function.update_of_ne hidx]
          exact hidv
        refine (TreeFile.change_yields hs₂ hid0 hid₂ (SlotEdit.setParent hxlt)).bind
          fun _ t₃ _ hs₃ hpost => ?_
        obtain ⟨hρ₃, hH₃⟩ := hpost
        have hH₃' : ∀ k, k ≠ x → k ≠ id → t₃.heap d k = t₁.heap d k := fun k hkx hki => by
          rw [hH₃, Function.update_of_ne hki, hH₂, Function.update_of_ne hkx]
        refine TreeFile.Yields.pure hs₃ ⟨rfl, ⟨hid0, by rw [hH₃, Function.update_self]; rfl, trivial, trivial⟩,
          hx0, ⟨_, _, by rw [hH₃, Function.update_of_ne (Ne.symm hidx), hH₂, Function.update_self]⟩,
          hr.congr fun k hk => ?_, ?_⟩
        · obtain ⟨hkx, hki⟩ := hother r (fun k hk => by simp [hk]) hxr k hk
          exact hH₃' k hkx hki
        · rw [hρ₃, hρ₂]
          exact hctx.congr fun k hk => hH₃' k (hctxIds k hk).1 (hctxIds k hk).2
      | node ll y lr =>
        -- the left child is a node: descend into it
        have hy0 : y ≠ 0 := hl.1
        simp only [rootId_node, beq_iff_eq, hy0, if_false]
        exact descend_yields root hid0 hidlt fuel (.inL c x r) ll lr y hs₁ hl
          ⟨hx0, ⟨_, _, hHx⟩, hr, hctx⟩ hidv hidT hids (by simp only [height_node] at hh ⊢; omega)
    | false =>
      simp only [Bool.false_eq_true, if_false]
      cases r with
      | nil =>
        -- the right place of `x` is free: `id` hangs there
        simp only [rootId_nil, beq_self_eq_true, if_true, Ctx.descent]
        refine (TreeFile.change_yields hs₁ hx0 hHx (SlotEdit.setRight hidlt)).bind
          fun _ t₂ _ hs₂ hpost => ?_
        obtain ⟨hρ₂, hH₂⟩ := hpost
        have hid₂ : t₂.heap d id = some ⟨0, 0, 0, 0, 0, val id⟩ := by
          rw [hH₂, Function.update_of_ne hidx]
          exact hidv
        refine (TreeFile.change_yields hs₂ hid0 hid₂ (SlotEdit.setParent hxlt)).bind
          fun _ t₃ _ hs₃ hpost => ?_
        obtain ⟨hρ₃, hH₃⟩ := hpost
        have hH₃' : ∀ k, k ≠ x → k ≠ id → t₃.heap d k = t₁.heap d k := fun k hkx hki => by
          rw [hH₃, Function.update_of_ne hki, hH₂, Function.update_of_ne hkx]
        refine TreeFile.Yields.pure hs₃ ⟨rfl, ⟨hid0, by rw [hH₃, Function.update_self]; rfl, trivial, trivial⟩,
          hx0, ⟨_, _, by rw [hH₃, Function.update_of_ne (Ne.symm hidx), hH₂, Function.update_self]⟩,
          hl.congr fun k hk => ?_, ?_⟩
        · obtain ⟨hkx, hki⟩ := hother l (fun k hk => by simp [hk]) hxl k hk
          exact hH₃' k hkx hki
        · rw [hρ₃, hρ₂]
          exact hctx.congr fun k hk => hH₃' k (hctxIds k hk).1 (hctxIds k hk).2
      | node rl y rr =>
        have hy0 : y ≠ 0 := hr.1
        simp only [rootId_node, beq_iff_eq, hy0, if_false]
        exact descend_yields root hid0 hidlt fuel (.inR l x c) rl rr y hs₁ hr
          ⟨hx0, ⟨_, _, hHx⟩, hl, hctx⟩ hidv hidT hids (by simp only [height_node] at hh ⊢; omega)

/-- Attaching a detached node `id` to the tree `T` the heap holds gives the tree `T.hang`: the
leaf is hung below the node the descent reaches and every node on the way back up is
refreshed and rebalanced. -/
theorem attach_yields {t : TreeFile} (ht : t.Sound d) {T : IdTree} {id : Nat}
    (hrep : Rep (t.heap d) val 0 T) (hroot : t.root.value = T.rootId) (hids : T.Ids)
    (hidv : t.heap d id = some ⟨0, 0, 0, 0, 0, val id⟩) (hidT : id ∉ T.toList) (hid0 : id ≠ 0)
    (hidlt : id < Nat.pow 256 8) (hlatest : T.height ≤ t.core.latest)
    (hbound : T.height ≤ TreeFile.linkBound) (hh : T.height < 254) :
    TreeFile.Yields (TreeFile.attach id) d t fun _ ρ H =>
      Rep H val 0 (T.hang (goesLeft val id) id) ∧ ρ = (T.hang (goesLeft val id) id).rootId := by
  unfold TreeFile.attach
  refine TreeFile.Yields.self_bind ?_
  dsimp only
  cases T with
  | nil =>
    -- an empty tree: the node becomes the root
    simp only [hroot, rootId_nil, beq_self_eq_true, if_true]
    exact (TreeFile.setRoot_yields ht hidlt).mono fun _ ρ H ⟨hρ, hH⟩ =>
      ⟨⟨hid0, hH ▸ hidv, trivial, trivial⟩, hρ⟩
  | node l x r =>
    have hx0 : x ≠ 0 := hrep.1
    rw [hroot, rootId_node, if_neg (by simpa using hx0)]
    refine (TreeFile.node_yields ht hid0 hidv).bind fun n t₁ hk₁ hs₁ ⟨hn, hρ₁, hH₁⟩ => ?_
    have hnv : n.value = val id := congrArg NodeView.value hn
    rw [hnv]
    have hctx₁ : RepCtx (t₁.heap d) val t₁.root.value .top x := by rw [hρ₁, hroot]; rfl
    refine (descend_yields x hid0 hidlt t.core.latest .top l r x hs₁ (hH₁ ▸ hrep) hctx₁
      (hH₁ ▸ hidv) hidT hids hlatest).bind fun P t₂ hk₂ hs₂ ⟨hP, hPrep, hPctx⟩ => ?_
    subst hP
    unfold TreeFile.retrace
    -- the tree with the leaf in place, before any rebalancing
    set C := Ctx.top.descent (goesLeft val id) (node l x r)
    have hplug : C.plug nil = node l x r := Ctx.plug_descent _ .top _
    have hids' : (C.plug (node nil id nil)).Ids :=
      IdTree.Ids.leaf (by rw [hplug]; exact hids) (by rw [hplug]; exact hidT) hid0 hidlt
    have hh' : (C.plug (node nil id nil)).height < 255 := by
      have : (C.plug (node nil id nil)).height ≤ (C.plug nil).height + 1 :=
        Ctx.height_plug_le_add C (by simp)
      rw [hplug] at this
      omega
    have hfuel : C.length ≤ TreeFile.linkBound := by
      have hlen : C.length ≤ Ctx.top.length + (node l x r).height := Ctx.length_descent_le _ _ _
      simp only [Ctx.length] at hlen
      omega
    exact retraceFor_hole_yields hs₂ _ hPrep hPctx hids' hh' hfuel

/-! ## Whole trees around a node -/

/-- The heap holds the context `c` around a subtree `t` with exact cached heights: the ancestors
link to each other and to `t`'s root, and the subtrees hanging off the path are held in full. -/
def RepAround (H : Heap) (val : Nat → Value) : Ctx → IdTree → Prop
  | .top, _ => True
  | .inL c y r, t => y ≠ 0 ∧ H y = some ⟨c.parentId, t.rootId, r.rootId, t.height, r.height, val y⟩ ∧
      Rep H val y r ∧ RepAround H val c (node t y r)
  | .inR l y c, t => y ≠ 0 ∧ H y = some ⟨c.parentId, l.rootId, t.rootId, l.height, t.height, val y⟩ ∧
      Rep H val y l ∧ RepAround H val c (node l y t)

variable {H H' : Heap}

/-- A heap holds a whole tree exactly when it holds the subtree in a hole and the context
around it. -/
theorem rep_plug_iff : ∀ (c : Ctx) (t : IdTree),
    Rep H val 0 (c.plug t) ↔ Rep H val c.parentId t ∧ RepAround H val c t
  | .top, t => by simp [RepAround, Ctx.plug, Ctx.parentId]
  | .inL c y r, t => by
    rw [Ctx.plug, rep_plug_iff c, rep_node]
    simp only [RepAround, Ctx.parentId]
    tauto
  | .inR l y c, t => by
    rw [Ctx.plug, rep_plug_iff c, rep_node]
    simp only [RepAround, Ctx.parentId]
    tauto

/-- Exact heights above a subtree are in particular heights that may be stale. -/
theorem RepAround.toCtx : ∀ {c : Ctx} {t : IdTree}, RepAround H val c t →
    RepCtx H val (c.plug t).rootId c t.rootId
  | .top, _, _ => rfl
  | .inL _ _ _, _, ⟨hy, hv, hr, hc⟩ => ⟨hy, ⟨_, _, hv⟩, hr, RepAround.toCtx hc⟩
  | .inR _ _ _, _, ⟨hy, hv, hl, hc⟩ => ⟨hy, ⟨_, _, hv⟩, hl, RepAround.toCtx hc⟩

/-- A heap holding a whole tree holds each subtree below its parent, in its context. -/
theorem Rep.unplug {c : Ctx} {t : IdTree} (h : Rep H val 0 (c.plug t)) :
    Rep H val c.parentId t ∧ RepCtx H val (c.plug t).rootId c t.rootId :=
  have h' := (rep_plug_iff c t).mp h
  ⟨h'.1, h'.2.toCtx⟩

/-- What a context says of the subtree in its hole is only its root and its height; and it
holds in any heap agreeing on the context's ids. -/
theorem RepAround.congr {c : Ctx} {t t' : IdTree} (h : RepAround H val c t) (hH : ∀ k ∈ c.ids, H' k = H k)
    (hr : t'.rootId = t.rootId) (hh : t'.height = t.height) : RepAround H' val c t' := by
  induction c generalizing t t' with
  | top => trivial
  | inL c y r ih =>
    obtain ⟨hy, hv, hrep, hc⟩ := h
    exact ⟨hy, by rw [hH y (by simp), hr, hh]; exact hv, hrep.congr fun k hk => hH k (by simp [hk]),
      ih hc (fun k hk => hH k (by simp [hk])) rfl (by simp [hh])⟩
  | inR l y c ih =>
    obtain ⟨hy, hv, hrep, hc⟩ := h
    exact ⟨hy, by rw [hH y (by simp), hr, hh]; exact hv, hrep.congr fun k hk => hH k (by simp [hk]),
      ih hc (fun k hk => hH k (by simp [hk])) rfl (by simp [hh])⟩

/-- The root of a tree with a node in a hole is the context's top, whatever the node is. -/
theorem Ctx.rootId_plug_congr (c : Ctx) {t t' : IdTree} (h : t'.rootId = t.rootId) :
    (c.plug t').rootId = (c.plug t).rootId := by
  induction c generalizing t t' with
  | top => exact h
  | inL c y r ih => exact ih rfl
  | inR l y c ih => exact ih rfl

/-- Replacing the subtree in a hole by one as high, under its parent: the heap then holds the
context around the new subtree with exact heights, and nothing but the parent changed. -/
theorem replaceChild_around_yields {t : TreeFile} (ht : t.Sound d) {c : Ctx} {s : IdTree} (s' : IdTree)
    (hc : RepAround (t.heap d) val c s) (hnd : c.ids.Nodup) (hs0 : s.rootId ≠ 0) (hsc : s.rootId ∉ c.ids)
    (hρ : t.root.value = (c.plug s).rootId) (hh : s'.height = s.height) (hnew : s'.rootId < Nat.pow 256 8) :
    TreeFile.Yields (TreeFile.replaceChild c.parentId s.rootId s'.rootId) d t fun _ ρ H =>
      RepAround H val c s' ∧ ρ = (c.plug s').rootId ∧ ∀ k, k ≠ c.parentId → H k = t.heap d k := by
  cases c with
  | top =>
    refine (TreeFile.replaceChild_root_yields ht _ hnew).mono fun _ ρ H hpost => ?_
    obtain ⟨hρ', hH⟩ := hpost
    exact ⟨trivial, hρ', fun k _ => by rw [hH]⟩
  | inL c p r =>
    obtain ⟨hp, hv, hr, hc'⟩ := hc
    have hnd' := (ids_inL_perm c p r).nodup_iff.mp hnd
    simp only [List.nodup_cons, List.mem_append, not_or] at hnd'
    refine (TreeFile.replaceChild_node_yields ht hp hv _ hnew).mono fun _ ρ H hpost => ?_
    obtain ⟨hρ', hH⟩ := hpost
    refine ⟨?_, by rw [hρ', hρ]; exact Ctx.rootId_plug_congr c rfl,
      fun k hk => by rw [hH, Function.update_of_ne (show k ≠ p from hk)]⟩
    subst hH
    refine ⟨hp, by simp [NodeView.swap, hh], hr.congr fun k hk => ?_,
      hc'.congr (fun k hk => ?_) rfl (by rw [height_node, height_node, hh])⟩
    · rw [Function.update_of_ne]
      rintro rfl
      exact hnd'.1.1 hk
    · rw [Function.update_of_ne]
      rintro rfl
      exact hnd'.1.2 hk
  | inR l p c =>
    obtain ⟨hp, hv, hl, hc'⟩ := hc
    have hnd' := (ids_inR_perm l p c).nodup_iff.mp hnd
    simp only [List.nodup_cons, List.mem_append, not_or] at hnd'
    -- the left child is not the old one, which lies outside the context
    have hleft : l.rootId ≠ s.rootId := IdTree.rootId_ne hs0 fun h => hsc (by simp [h])
    refine (TreeFile.replaceChild_node_yields ht hp hv _ hnew).mono fun _ ρ H hpost => ?_
    obtain ⟨hρ', hH⟩ := hpost
    refine ⟨?_, by rw [hρ', hρ]; exact Ctx.rootId_plug_congr c rfl,
      fun k hk => by rw [hH, Function.update_of_ne (show k ≠ p from hk)]⟩
    subst hH
    refine ⟨hp, by simp [NodeView.swap, hleft, hh], hl.congr fun k hk => ?_,
      hc'.congr (fun k hk => ?_) rfl (by rw [height_node, height_node, hh])⟩
    · rw [Function.update_of_ne]
      rintro rfl
      exact hnd'.1.1 hk
    · rw [Function.update_of_ne]
      rintro rfl
      exact hnd'.1.2 hk

/-! ## Taking a node out -/

/-- Walking left from `x` answers the id `Ctx.leftmost` finds, and only reads. -/
theorem minFor_yields : ∀ (fuel : Nat) (c : Ctx) {p : Nat} (l : IdTree) (x : Nat) (r : IdTree)
    {t : TreeFile}, t.Sound d → Rep (t.heap d) val p (node l x r) → l.height ≤ fuel →
    TreeFile.Yields (TreeFile.minFor fuel x) d t fun m ρ H =>
      m = (c.leftmost l x r).2.1 ∧ ρ = t.root.value ∧ H = t.heap d
  | 0, c, _, l, x, r, t, ht, _, hh => by
    cases l with
    | nil => exact TreeFile.Yields.pure ht ⟨rfl, rfl, rfl⟩
    | node => simp at hh
  | fuel + 1, c, _, l, x, r, t, ht, hrep, hh => by
    obtain ⟨hx0, hHx, hl, -⟩ := hrep
    rw [TreeFile.minFor]
    refine (TreeFile.links_yields ht hx0 hHx).bind fun s t₁ _ hs₁ ⟨hs, hρ₁, hH₁⟩ => ?_
    rw [hs.left]
    cases l with
    | nil => exact TreeFile.Yields.pure hs₁ ⟨rfl, hρ₁, hH₁⟩
    | node ll y lr =>
      have hy0 : y ≠ 0 := hl.1
      simp only [rootId_node, beq_iff_eq, hy0, if_false]
      rw [← hH₁] at hl
      exact (minFor_yields fuel (.inL c x r) ll y lr hs₁ hl (by simp only [height_node] at hh; omega)).mono
        fun _ _ _ hpost => ⟨hpost.1, hpost.2.1.trans hρ₁, hpost.2.2.trans hH₁⟩

/-- The ids of a tree with one id fewer. -/
theorem IdTree.Ids.of_perm_cons {T T' : IdTree} {x : Nat} (h : T.Ids) (hp : T.toList.Perm (x :: T'.toList)) :
    T'.Ids := by
  have hnd := hp.nodup_iff.mp h.nodup
  exact ⟨(List.nodup_cons.mp hnd).2, fun k hk => h.pos k (hp.mem_iff.mpr (by simp [hk])),
    fun k hk => h.lt k (hp.mem_iff.mpr (by simp [hk]))⟩

/-- Taking out `node a x b` with an empty side: the other side in its place. -/
theorem Ctx.toList_plug_perm_of_side (C : Ctx) {a b s : IdTree} (x : Nat) (hs : a = nil ∧ s = b ∨ b = nil ∧ s = a) :
    (C.plug (node a x b)).toList.Perm (x :: (C.plug s).toList) := by
  rw [Ctx.toList_plug, Ctx.toList_plug]
  refine List.perm_iff_count.mpr fun k => ?_
  rcases hs with ⟨rfl, rfl⟩ | ⟨rfl, rfl⟩
  · simp only [toList_node, toList_nil, List.nil_append, List.count_append, List.count_cons]
    omega
  · simp only [toList_node, toList_nil, List.count_append, List.count_cons, List.count_nil]
    omega

/-- No id of a context is the root of the subtree in its hole. -/
theorem IdTree.Ids.ne_rootId {C : Ctx} {s : IdTree} (h : (C.plug s).Ids) : ∀ k ∈ C.ids, k ≠ s.rootId := by
  obtain ⟨-, -, hsout, hcpos⟩ := h.hole
  intro k hk hks
  by_cases h0 : s.rootId = 0
  · exact absurd (hks.trans h0) (Nat.pos_iff_ne_zero.mp (hcpos k hk).1)
  · exact hsout _ (rootId_mem h0) (hks ▸ hk)

/-- Taking out a node with an empty side: the other side takes its place under its parent, and
the path above is rebalanced. -/
theorem unlink_yields {C : Ctx} {a b s : IdTree} {x : Nat} {t : TreeFile} (ht : t.Sound d)
    (hrep : Rep (t.heap d) val C.parentId (node a x b)) (hctx : RepCtx (t.heap d) val t.root.value C x)
    (hids : (C.plug (node a x b)).Ids) (hh : (C.plug (node a x b)).height < 255)
    (hfuel : C.length ≤ TreeFile.linkBound) (hs : a = nil ∧ s = b ∨ b = nil ∧ s = a) :
    TreeFile.Yields (TreeFile.unlink x) d t fun _ ρ H =>
      Rep H val 0 (C.retraceUp s) ∧ ρ = (C.retraceUp s).rootId := by
  obtain ⟨hx0, hHx, ha, hb⟩ := hrep
  obtain ⟨hT, hcnd, hout, -⟩ := hids.hole
  have hids' : (C.plug s).Ids := hids.of_perm_cons (C.toList_plug_perm_of_side x hs)
  obtain ⟨hsT, -, hsout, -⟩ := hids'.hole
  have hsx : x ∉ s.toList := by
    obtain ⟨hxa, hxb⟩ := nodup_node hT.nodup
    rcases hs with ⟨-, rfl⟩ | ⟨-, rfl⟩
    · exact hxb
    · exact hxa
  have hsRep : Rep (t.heap d) val x s := by
    rcases hs with ⟨-, rfl⟩ | ⟨-, rfl⟩
    · exact hb
    · exact ha
  have hchild : ∀ (sl : NodeSlot), Shows sl ⟨C.parentId, a.rootId, b.rootId, a.height, b.height, val x⟩ →
      (if (sl.left.value == 0) = true then sl.right.value else sl.left.value) = s.rootId := fun sl hsl => by
    rw [hsl.left, hsl.right]
    rcases hs with ⟨rfl, rfl⟩ | ⟨rfl, hsa⟩
    · simp
    · rw [hsa]
      cases a with
      | nil => simp
      | node al y ar => simp [ha.1]
  unfold TreeFile.unlink
  refine (TreeFile.links_yields ht hx0 hHx).bind fun sl t₁ hk₁ hs₁ ⟨hsl, hρ₁, hH₁⟩ => ?_
  dsimp only
  rw [hchild sl hsl, hsl.parent]
  rw [← hH₁] at hsRep hctx
  rw [← hρ₁] at hctx
  refine TreeFile.Yields.bind_ite (reparent_yields hs₁ hsRep hsT.nodup hids.parentId_lt)
    fun _ t₂ hk₂ hs₂ ⟨hρ₂, hrep₂, hH₂⟩ => ?_
  -- the context is untouched by hanging `s` below `x`'s parent
  have hctx₂ : RepCtx (t₂.heap d) val t₂.root.value C x := by
    rw [hρ₂]
    exact hctx.congr fun k hk => hH₂ k (hids'.ne_rootId k hk)
  have hnd : (x :: C.ids).Nodup := List.nodup_cons.mpr ⟨hout x (by simp), hcnd⟩
  refine (replaceChild_ctx_yields hs₂ hctx₂ hnd hx0 (IdTree.rootId_lt hsT.lt)).bind
    fun _ t₃ hk₃ hs₃ ⟨hctx₃, hH₃⟩ => ?_
  unfold TreeFile.retrace
  have hrep₃ : Rep (t₃.heap d) val C.parentId s := hrep₂.congr fun k hk => hH₃ k (hids'.ne_parentId k hk)
  have hsh : s.height ≤ (node a x b).height := by
    rcases hs with ⟨-, rfl⟩ | ⟨-, rfl⟩ <;> simp only [height_node] <;> omega
  exact retraceFor_hole_yields hs₃ _ hrep₃ hctx₃ hids' (lt_of_le_of_lt (Ctx.height_plug_le C hsh) hh)
    hfuel

/-- Every node of a held tree is in the heap, with its value. -/
theorem Rep.mem_heap {p : Nat} {T : IdTree} (h : Rep H val p T) {k : Nat} (hk : k ∈ T.toList) :
    ∃ v : NodeView, H k = some v ∧ v.value = val k := by
  induction T generalizing p with
  | nil => exact absurd hk List.not_mem_nil
  | node l x r ihl ihr =>
    obtain ⟨-, hv, hl, hr⟩ := h
    simp only [toList_node, List.mem_append, List.mem_cons] at hk
    rcases hk with hk | rfl | hk
    · exact ihl hl hk
    · exact ⟨_, hv, rfl⟩
    · exact ihr hr hk

/-- The edit by which a node takes over another's links and cached heights. -/
theorem SlotEdit.takeOver {p l r a b : Nat} (hp : p < Nat.pow 256 8) (hl : l < Nat.pow 256 8)
    (hr : r < Nat.pow 256 8) (ha : a < 256) (hb : b < 256) :
    SlotEdit (fun s => (((s.setParent p).setLeft l).setRight r).setDepths a b)
      fun w => ⟨p, l, r, a, b, w.value⟩ :=
  (((SlotEdit.setParent hp).comp (SlotEdit.setLeft hl)).comp (SlotEdit.setRight hr)).comp
    (SlotEdit.setDepths ha hb)

/-- Clearing a node that no longer belongs to the tree leaves the tree as the heap holds it. -/
theorem clear_yields {T : IdTree} {x : Nat} {v : NodeView} {t : TreeFile} (ht : t.Sound d) (hx0 : x ≠ 0)
    (hv : t.heap d x = some v) (hval : v.value = val x) (hrep : Rep (t.heap d) val 0 T)
    (hρ : t.root.value = T.rootId) (hxT : x ∉ T.toList) :
    TreeFile.Yields (TreeFile.change x fun b => (((b.setParent 0).setLeft 0).setRight 0).setDepths 0 0) d t
      fun _ ρ H => Rep H val 0 T ∧ ρ = T.rootId ∧ H x = some ⟨0, 0, 0, 0, 0, val x⟩ := by
  have hz : 0 < Nat.pow 256 8 := by decide
  refine (TreeFile.change_yields ht hx0 hv (SlotEdit.takeOver hz hz hz (by decide) (by decide))).mono
    fun _ ρ H ⟨hρ', hH⟩ => ⟨hrep.congr fun k hk => ?_, hρ'.trans hρ, by rw [hH, Function.update_self, hval]⟩
  rw [hH, Function.update_of_ne (fun (h : k = x) => hxT (h ▸ hk))]

/-- Putting node `m`, out of the tree, in the place of node `x`: `m` takes over `x`'s links and
cached heights, and `x`'s neighbours link to `m`. On trees of ids this renames `x` to `m`. -/
theorem splice_yields {β : Type} {T : IdTree} {x m : Nat} {t : TreeFile} (ht : t.Sound d)
    (hrep : Rep (t.heap d) val 0 T) (hρ : t.root.value = T.rootId) (hids : T.Ids) (hh : T.height < 256)
    (hx : x ∈ T.toList) (hm0 : m ≠ 0) (hmlt : m < Nat.pow 256 8) (hmT : m ∉ T.toList)
    (hmv : ∃ v : NodeView, t.heap d m = some v ∧ v.value = val m) {k : Unit → TreeOp β}
    {Q : β → Nat → Heap → Prop}
    (hk : ∀ t', TreeFile.Keeps d t t' → t'.Sound d → Rep (t'.heap d) val 0 (T.replaceId x m) →
      t'.root.value = (T.replaceId x m).rootId → TreeFile.Yields (k ()) d t' Q) :
    TreeFile.Yields (do
      let l ← TreeFile.links x
      TreeFile.change m fun b =>
        (((b.setParent l.parent.value).setLeft l.left.value).setRight l.right.value).setDepths
          l.leftDepth.value l.rightDepth.value
      if l.left.value != 0 then TreeFile.change l.left.value (·.setParent m)
      if l.right.value != 0 then TreeFile.change l.right.value (·.setParent m)
      let r ← TreeFile.replaceChild l.parent.value x m
      k r) d t Q := by
  obtain ⟨C, a, b, hT⟩ := IdTree.exists_plug_of_mem .top hx
  change T = C.plug (node a x b) at hT
  subst hT
  obtain ⟨⟨hx0, hHx, ha, hb⟩, haround⟩ := (rep_plug_iff C _).mp hrep
  obtain ⟨hnT, hcnd, hout, -⟩ := hids.hole
  obtain ⟨hxa, hxb⟩ := nodup_node hnT.nodup
  obtain ⟨haIds, hbIds⟩ := hnT.children
  have hab : ∀ k ∈ a.toList, k ∉ b.toList := by
    have := hnT.nodup
    simp only [toList_node, List.nodup_append, List.nodup_cons] at this
    exact fun k hk hkb => this.2.2 k hk k (List.mem_cons_of_mem _ hkb) rfl
  have hmx : m ≠ x := fun h => hmT (h ▸ hx)
  have hma : m ∉ a.toList := fun h => hmT (by rw [Ctx.toList_plug]; simp [h])
  have hmb : m ∉ b.toList := fun h => hmT (by rw [Ctx.toList_plug]; simp [h])
  have hmc : m ∉ C.ids := fun h => hmT (by
    rw [Ctx.toList_plug]
    simp only [Ctx.ids, List.mem_append] at h
    rcases h with h | h <;> simp [h])
  have hmp : m ≠ C.parentId := fun h => by
    rcases C.parentId_mem with h0 | hp
    · exact hm0 (h.trans h0)
    · exact hmc (h ▸ hp)
  have hhab : a.height < 256 ∧ b.height < 256 := by
    have := Ctx.height_le_plug C (node a x b)
    simp only [height_node] at this
    omega
  obtain ⟨w, hw, hwv⟩ := hmv
  refine (TreeFile.links_yields ht hx0 hHx).bind fun sl t₁ hk₁ hs₁ hpost => ?_
  obtain ⟨hsl, hρ₁, hH₁⟩ := hpost
  dsimp only
  rw [hsl.parent, hsl.left, hsl.right, hsl.leftDepth, hsl.rightDepth]
  -- `m` takes over `x`'s links and heights
  refine (TreeFile.change_yields hs₁ hm0 (hH₁ ▸ hw) (SlotEdit.takeOver (hids.parentId_lt)
    (IdTree.rootId_lt haIds.lt) (IdTree.rootId_lt hbIds.lt) hhab.1 hhab.2)).bind
    fun _ t₂ hk₂ hs₂ hpost => ?_
  obtain ⟨hρ₂, hH₂⟩ := hpost
  have hH₂' : ∀ k, k ≠ m → t₂.heap d k = t.heap d k := fun k hk => by
    rw [hH₂, Function.update_of_ne hk, hH₁]
  -- the children of `x` now hang below `m`
  refine TreeFile.Yields.bind_ite (reparent_yields hs₂ (ha.congr fun k hk => hH₂' k fun h => hma (h ▸ hk))
    haIds.nodup hmlt) fun _ t₃ hk₃ hs₃ hpost => ?_
  obtain ⟨hρ₃, haRep₃, hH₃⟩ := hpost
  refine TreeFile.Yields.bind_ite (reparent_yields hs₃ (hb.congr fun k hk => by
      rw [hH₃ k (IdTree.rootId_ne (Nat.pos_iff_ne_zero.mp (hbIds.pos k hk)) fun h => hab _ h hk).symm,
        hH₂' k fun h => hmb (h ▸ hk)])
    hbIds.nodup hmlt) fun _ t₄ hk₄ hs₄ hpost => ?_
  obtain ⟨hρ₄, hbRep₄, hH₄⟩ := hpost
  -- the nodes of the context are untouched so far
  have hH₄c : ∀ k ∈ C.ids, t₄.heap d k = t.heap d k := fun k hk => by
    have hka : k ≠ a.rootId := IdTree.rootId_ne (Nat.pos_iff_ne_zero.mp (hids.hole.2.2.2 k hk).1)
      (fun h => hout k (by simp [h]) hk) |>.symm
    have hkb : k ≠ b.rootId := IdTree.rootId_ne (Nat.pos_iff_ne_zero.mp (hids.hole.2.2.2 k hk).1)
      (fun h => hout k (by simp [h]) hk) |>.symm
    rw [hH₄ k hkb, hH₃ k hka, hH₂' k fun h => hmc (h ▸ hk)]
  refine (replaceChild_around_yields hs₄ (node a m b) (haround.congr hH₄c rfl rfl) hcnd hx0
    (hout x (by simp)) (by rw [hρ₄, hρ₃, hρ₂, hρ₁, hρ]) rfl hmlt).bind fun r t₅ hk₅ hs₅ hpost => ?_
  obtain ⟨haround₅, hρ₅, hH₅⟩ := hpost
  -- the tree with `m` in `x`'s place
  have hren : (C.plug (node a x b)).replaceId x m = C.plug (node a m b) := by
    rw [Ctx.replaceId_plug m C _ (fun h => hout x (by simp) (by simpa [Ctx.ids] using h))]
    simp [replaceId, replaceId_of_not_mem m hxa, replaceId_of_not_mem m hxb]
  have hpa : ∀ k ∈ a.toList, k ≠ C.parentId := fun k hk => hids.ne_parentId k (by simp [hk])
  have hpb : ∀ k ∈ b.toList, k ≠ C.parentId := fun k hk => hids.ne_parentId k (by simp [hk])
  refine hk t₅ (hk₁.trans (hk₂.trans (hk₃.trans (hk₄.trans hk₅)))) hs₅ ?_ (by rw [hren, hρ₅])
  rw [hren, rep_plug_iff]
  refine ⟨⟨hm0, ?_, haRep₃.congr fun k hk => ?_, hbRep₄.congr fun k hk => ?_⟩, haround₅⟩
  · rw [hH₅ m hmp, hH₄ m (IdTree.rootId_ne hm0 hmb).symm, hH₃ m (IdTree.rootId_ne hm0 hma).symm, hH₂,
      Function.update_self, hwv]
  · rw [hH₅ k (hpa k hk), hH₄ k (IdTree.rootId_ne (Nat.pos_iff_ne_zero.mp (haIds.pos k hk))
      fun h => hab _ hk h).symm]
  · rw [hH₅ k (hpb k hk)]

/-- Taking node `x` out of the tree the heap holds: the heap then holds `Ctx.removeAt`, and `x`
itself, out of the tree, has no links left. -/
theorem detach_yields {C : Ctx} {a b : IdTree} {x : Nat} {t : TreeFile} (ht : t.Sound d)
    (hrep : Rep (t.heap d) val 0 (C.plug (node a x b))) (hρ : t.root.value = (C.plug (node a x b)).rootId)
    (hids : (C.plug (node a x b)).Ids) (hh : (C.plug (node a x b)).height < 255)
    (hbound : (C.plug (node a x b)).height ≤ TreeFile.linkBound) :
    TreeFile.Yields (TreeFile.detach x) d t fun _ ρ H =>
      Rep H val 0 (C.removeAt a x b) ∧ ρ = (C.removeAt a x b).rootId ∧ H x = some ⟨0, 0, 0, 0, 0, val x⟩ := by
  obtain ⟨⟨hx0, hHx, ha, hb⟩, haround⟩ := (rep_plug_iff C _).mp hrep
  have hctx : RepCtx (t.heap d) val t.root.value C x := hρ ▸ haround.toCtx
  have hxout : x ∉ (C.removeAt a x b).toList := by
    rw [Ctx.toList_removeAt _ _ _ _ hids.nodup]
    exact hids.nodup.not_mem_erase
  have hlen := Ctx.length_add_height_le C (node a x b)
  unfold TreeFile.detach
  refine (TreeFile.links_yields ht hx0 hHx).bind fun sl t₁ hk₁ hs₁ ⟨hsl, hρ₁, hH₁⟩ => ?_
  dsimp only
  rw [hsl.left, hsl.right]
  have hb₁ := hH₁ ▸ hb
  have hfuel₁ : C.length ≤ TreeFile.linkBound := by
    simp only [height_node] at hlen
    omega
  -- `x` stays in the heap with its value, whatever the later steps do
  have hxv : ∀ t', TreeFile.Keeps d t₁ t' → ∃ v : NodeView, t'.heap d x = some v ∧ v.value = val x :=
    fun t' hk => hk.values x _ (hH₁ ▸ hHx)
  have hrep₁ : Rep (t₁.heap d) val C.parentId (node a x b) := hH₁ ▸ ⟨hx0, hHx, ha, hb⟩
  have hctx₁ : RepCtx (t₁.heap d) val t₁.root.value C x := hH₁ ▸ hρ₁ ▸ hctx
  cases a with
  | nil =>
    -- no left subtree: the right one takes `x`'s place
    simp only [rootId_nil, bne_self_eq_false, Bool.false_and, Bool.false_eq_true, if_false]
    refine (unlink_yields hs₁ hrep₁ hctx₁ hids hh hfuel₁ (.inl ⟨rfl, rfl⟩)).bind
      fun _ t₂ hk₂ hs₂ ⟨hrep₂, hρ₂⟩ => ?_
    obtain ⟨v, hv, hvx⟩ := hxv t₂ hk₂
    exact clear_yields hs₂ hx0 hv hvx hrep₂ hρ₂ hxout
  | node al ax ar =>
    cases b with
    | nil =>
      simp only [rootId_nil, bne_self_eq_false, Bool.and_false, Bool.false_eq_true, if_false]
      refine (unlink_yields hs₁ hrep₁ hctx₁ hids hh hfuel₁ (.inr ⟨rfl, rfl⟩)).bind
        fun _ t₂ hk₂ hs₂ ⟨hrep₂, hρ₂⟩ => ?_
      obtain ⟨v, hv, hvx⟩ := hxv t₂ hk₂
      exact clear_yields hs₂ hx0 hv hvx hrep₂ hρ₂ hxout
    | node bl y br =>
      -- two subtrees: the successor is taken out of its place and put in `x`'s
      rw [if_pos (by simp [ha.1, hb.1])]
      have hminFuel : bl.height ≤ TreeFile.linkBound := by
        simp only [height_node] at hlen
        omega
      refine (minFor_yields _ (.inR (node al ax ar) x C) bl y br hs₁ hb₁ hminFuel).bind
        fun m t₂ hk₂ hs₂ ⟨hm, hρ₂, hH₂⟩ => ?_
      rcases hL : (Ctx.inR (node al ax ar) x C).leftmost bl y br with ⟨C', m', mr⟩
      rw [hL] at hm
      change m = m' at hm
      subst hm
      have hplug := Ctx.plug_leftmost (.inR (node al ax ar) x C) bl y br
      have hmem := Ctx.mem_leftmost (.inR (node al ax ar) x C) bl y br
      rw [hL] at hplug hmem
      change C'.plug (node nil m mr) = C.plug (node (node al ax ar) x (node bl y br)) at hplug
      change m ∈ (node bl y br).toList at hmem
      simp only [Ctx.removeAt, hL] at hxout ⊢
      have hxb : x ∉ (node bl y br).toList := (nodup_node hids.hole.1.nodup).2
      rw [← hplug] at hrep hids hh hbound
      -- the successor's own place, with no left subtree
      obtain ⟨hrepm, hctxm⟩ := (hH₂.trans hH₁ ▸ hrep).unplug
      have hfuel₂ : C'.length ≤ TreeFile.linkBound := by
        have := Ctx.length_add_height_le C' (node nil m mr)
        omega
      refine (unlink_yields hs₂ hrepm (by rw [hρ₂, hρ₁, hρ, ← hplug]; exact hctxm) hids hh hfuel₂
        (.inl ⟨rfl, rfl⟩)).bind fun _ t₃ hk₃ hs₃ ⟨hrep₃, hρ₃⟩ => ?_
      -- what is left: every id but `m`, `x` among them
      have hperm : (C'.plug (node nil m mr)).toList.Perm (m :: (C'.retraceUp mr).toList) := by
        rw [Ctx.toList_retraceUp]
        exact C'.toList_plug_perm_of_side m (.inl ⟨rfl, rfl⟩)
      have hmT : m ∈ (C'.plug (node nil m mr)).toList := by rw [Ctx.toList_plug]; simp
      have hxT : x ∈ (C'.plug (node nil m mr)).toList := by rw [hplug, Ctx.toList_plug]; simp
      have hxm : x ≠ m := fun h => hxb (h ▸ hmem)
      have hx₃ : x ∈ (C'.retraceUp mr).toList := by
        rcases List.mem_cons.mp (hperm.mem_iff.mp hxT) with h | h
        · exact absurd h hxm
        · exact h
      have hh₃ : (C'.retraceUp mr).height < 256 := by
        have h₁ := Ctx.height_retraceUp_le C' mr
        have h₂ : (C'.plug mr).height ≤ (C'.plug (node nil m mr)).height := Ctx.height_plug_le C' (by simp)
        omega
      have hmv₃ : ∃ v : NodeView, t₃.heap d m = some v ∧ v.value = val m := by
        obtain ⟨v, hv, hvm⟩ := hrep.mem_heap hmT
        obtain ⟨v', hv', hvv⟩ := (hk₁.trans (hk₂.trans hk₃)).values m v hv
        exact ⟨v', hv', hvv.trans hvm⟩
      exact splice_yields hs₃ hrep₃ hρ₃ (hids.of_perm_cons hperm) hh₃ hx₃
        (Nat.pos_iff_ne_zero.mp (hids.pos m hmT)) (hids.lt m hmT)
        (List.nodup_cons.mp (hperm.nodup_iff.mp hids.nodup)).1 hmv₃ fun t₄ hk₄ hs₄ hrep₄ hρ₄ => by
          obtain ⟨v, hv, hvx⟩ := hxv t₄ (hk₂.trans (hk₃.trans hk₄))
          exact clear_yields hs₄ hx0 hv hvx hrep₄ hρ₄ hxout

end ColumnDb.Tree
