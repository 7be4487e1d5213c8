import Mathlib

/-!
# Trees of node ids

The links of a tree file describe a binary tree whose nodes are ids. This
module is about such trees alone: their in-order list of ids, their heights,
the AVL balance condition, the rotations, and the rebalancing step a tree
file takes at each node on its way back to the root.

A walk back to the root is described by a context (`Ctx`), the tree with a
hole at the node the walk stands on: `retraceUp c t` rebalances each node of
`c` in turn from the hole up, with `t` in the hole. Rotations keep the
in-order list, so a retrace does too. When the subtree in the hole grew by
at most one level (an insertion) or shrank by at most one level (a
deletion), and the tree was balanced before, the retrace leaves a balanced
tree.
-/

set_option autoImplicit false

namespace ColumnDb.Tree

/-- A binary tree of node ids. -/
inductive IdTree where
  | nil
  | node (l : IdTree) (id : Nat) (r : IdTree)
deriving DecidableEq, Repr, Inhabited

namespace IdTree

/-- The id at the root, 0 for the empty tree. -/
def rootId : IdTree → Nat
  | nil => 0
  | node _ x _ => x

/-- The number of levels. -/
def height : IdTree → Nat
  | nil => 0
  | node l _ r => max (height l) (height r) + 1

/-- The ids in order. -/
def toList : IdTree → List Nat
  | nil => []
  | node l x r => toList l ++ x :: toList r

/-- The height of the left subtree of the root. -/
def leftHeight : IdTree → Nat
  | nil => 0
  | node l _ _ => height l

/-- The height of the right subtree of the root. -/
def rightHeight : IdTree → Nat
  | nil => 0
  | node _ _ r => height r

/-- Every node's subtrees differ in height by at most one. -/
def Balanced : IdTree → Prop
  | nil => True
  | node l _ r => Balanced l ∧ Balanced r ∧ height l ≤ height r + 1 ∧ height r ≤ height l + 1

@[simp] theorem rootId_nil : nil.rootId = 0 := rfl
@[simp] theorem rootId_node (l : IdTree) (x : Nat) (r : IdTree) : (node l x r).rootId = x := rfl
@[simp] theorem height_nil : nil.height = 0 := rfl
@[simp] theorem height_node (l : IdTree) (x : Nat) (r : IdTree) :
    (node l x r).height = max l.height r.height + 1 := rfl
@[simp] theorem toList_nil : nil.toList = [] := rfl
@[simp] theorem toList_node (l : IdTree) (x : Nat) (r : IdTree) :
    (node l x r).toList = l.toList ++ x :: r.toList := rfl
@[simp] theorem leftHeight_node (l : IdTree) (x : Nat) (r : IdTree) : (node l x r).leftHeight = l.height :=
  rfl
@[simp] theorem rightHeight_node (l : IdTree) (x : Nat) (r : IdTree) :
    (node l x r).rightHeight = r.height := rfl
@[simp] theorem balanced_nil : nil.Balanced := trivial
@[simp] theorem balanced_node (l : IdTree) (x : Nat) (r : IdTree) :
    (node l x r).Balanced ↔ l.Balanced ∧ r.Balanced ∧ l.height ≤ r.height + 1 ∧ r.height ≤ l.height + 1 :=
  Iff.rfl

/-! ## Rotations and rebalancing -/

/-- The left child rises to the root. -/
def rotR : IdTree → IdTree
  | node (node a y b) x c => node a y (node b x c)
  | t => t

/-- The right child rises to the root. -/
def rotL : IdTree → IdTree
  | node a x (node b y c) => node (node a x b) y c
  | t => t

/-- Restores the balance at the root when one side is two levels taller: a single rotation,
or a double one when the taller child leans the other way. -/
def rebal : IdTree → IdTree
  | nil => nil
  | node l x r =>
    if r.height + 1 < l.height then
      if l.leftHeight < l.rightHeight then rotR (node (rotL l) x r) else rotR (node l x r)
    else if l.height + 1 < r.height then
      if r.rightHeight < r.leftHeight then rotL (node l x (rotR r)) else rotL (node l x r)
    else node l x r

@[simp] theorem toList_rotR (t : IdTree) : (rotR t).toList = t.toList := by
  cases t with
  | nil => rfl
  | node l x r => cases l <;> simp [rotR]

@[simp] theorem toList_rotL (t : IdTree) : (rotL t).toList = t.toList := by
  cases t with
  | nil => rfl
  | node l x r => cases r <;> simp [rotL]

@[simp] theorem toList_rebal (t : IdTree) : (rebal t).toList = t.toList := by
  cases t with
  | nil => rfl
  | node l x r =>
    simp only [rebal]
    split_ifs <;> simp

/-- A node already in balance is left as it is. -/
theorem rebal_of_le {l r : IdTree} {x : Nat} (h₁ : l.height ≤ r.height + 1) (h₂ : r.height ≤ l.height + 1) :
    rebal (node l x r) = node l x r := by
  rw [rebal, if_neg (by omega), if_neg (by omega)]

theorem rebal_of_left {l r : IdTree} {x : Nat} (h : r.height + 1 < l.height) :
    rebal (node l x r) =
      if l.leftHeight < l.rightHeight then rotR (node (rotL l) x r) else rotR (node l x r) := by
  rw [rebal, if_pos h]

theorem rebal_of_right {l r : IdTree} {x : Nat} (h₁ : ¬ r.height + 1 < l.height) (h₂ : l.height + 1 < r.height) :
    rebal (node l x r) =
      if r.rightHeight < r.leftHeight then rotL (node l x (rotR r)) else rotL (node l x r) := by
  rw [rebal, if_neg h₁, if_pos h₂]

theorem exists_node_of_height_pos {t : IdTree} (h : 0 < t.height) : ∃ l x r, t = node l x r := by
  cases t with
  | nil => simp at h
  | node l x r => exact ⟨l, x, r, rfl⟩

/-- A node whose left side is two levels taller comes out of `rebal` balanced, as high as its
left side or one level higher. -/
theorem rebal_leftHeavy {l r : IdTree} {x : Nat} (hl : l.Balanced) (hr : r.Balanced)
    (hh : l.height = r.height + 2) :
    (rebal (node l x r)).Balanced ∧ l.height ≤ (rebal (node l x r)).height ∧
      (rebal (node l x r)).height ≤ l.height + 1 := by
  obtain ⟨ll, y, lr, rfl⟩ := exists_node_of_height_pos (show 0 < l.height by omega)
  obtain ⟨hll, hlr, h₁, h₂⟩ := hl
  simp only [height_node] at hh
  rw [rebal_of_left (by simp only [height_node]; omega), leftHeight_node, rightHeight_node]
  split_ifs with hlean
  · -- the left child leans right: a double rotation through its right child
    obtain ⟨lrl, w, lrr, rfl⟩ := exists_node_of_height_pos (show 0 < lr.height by omega)
    obtain ⟨hlrl, hlrr, h₃, h₄⟩ := hlr
    simp only [height_node] at hlean h₁ h₂ hh
    simp only [rotL, rotR, balanced_node, height_node]
    exact ⟨⟨⟨hll, hlrl, by omega, by omega⟩, ⟨hlrr, hr, by omega, by omega⟩, by omega, by omega⟩,
      by omega, by omega⟩
  · simp only [rotR, balanced_node, height_node]
    exact ⟨⟨hll, ⟨hlr, hr, by omega, by omega⟩, by omega, by omega⟩, by omega, by omega⟩

/-- A node whose right side is two levels taller comes out of `rebal` balanced, as high as its
right side or one level higher. -/
theorem rebal_rightHeavy {l r : IdTree} {x : Nat} (hl : l.Balanced) (hr : r.Balanced)
    (hh : r.height = l.height + 2) :
    (rebal (node l x r)).Balanced ∧ r.height ≤ (rebal (node l x r)).height ∧
      (rebal (node l x r)).height ≤ r.height + 1 := by
  obtain ⟨rl, y, rr, rfl⟩ := exists_node_of_height_pos (show 0 < r.height by omega)
  obtain ⟨hrl, hrr, h₁, h₂⟩ := hr
  simp only [height_node] at hh
  rw [rebal_of_right (by simp only [height_node]; omega) (by simp only [height_node]; omega), leftHeight_node,
    rightHeight_node]
  split_ifs with hlean
  · -- the right child leans left: a double rotation through its left child
    obtain ⟨rll, w, rlr, rfl⟩ := exists_node_of_height_pos (show 0 < rl.height by omega)
    obtain ⟨hrll, hrlr, h₃, h₄⟩ := hrl
    simp only [height_node] at hlean h₁ h₂ hh
    simp only [rotL, rotR, balanced_node, height_node]
    exact ⟨⟨⟨hl, hrll, by omega, by omega⟩, ⟨hrlr, hrr, by omega, by omega⟩, by omega, by omega⟩,
      by omega, by omega⟩
  · simp only [rotL, balanced_node, height_node]
    exact ⟨⟨⟨hl, hrl, by omega, by omega⟩, hrr, by omega, by omega⟩, by omega, by omega⟩

/-- `rebal` balances a node whose sides differ by at most two levels, lowering it by at most
one level, and leaves it as it is when they differ by at most one. -/
theorem rebal_near {l r : IdTree} {x : Nat} (hl : l.Balanced) (hr : r.Balanced)
    (h₁ : l.height ≤ r.height + 2) (h₂ : r.height ≤ l.height + 2) :
    (rebal (node l x r)).Balanced ∧ (node l x r).height ≤ (rebal (node l x r)).height + 1 ∧
      (rebal (node l x r)).height ≤ (node l x r).height ∧
      (l.height ≤ r.height + 1 → r.height ≤ l.height + 1 → rebal (node l x r) = node l x r) := by
  rcases Nat.lt_or_ge (r.height + 1) l.height with hleft | hleft
  · -- the left side is two levels taller
    obtain ⟨hb, h₃, h₄⟩ := @rebal_leftHeavy l r x hl hr (by omega)
    refine ⟨hb, by simp only [height_node]; omega, by simp only [height_node]; omega, fun h₅ => ?_⟩
    omega
  rcases Nat.lt_or_ge (l.height + 1) r.height with hright | hright
  · -- the right side is two levels taller
    obtain ⟨hb, h₃, h₄⟩ := @rebal_rightHeavy l r x hl hr (by omega)
    refine ⟨hb, by simp only [height_node]; omega, by simp only [height_node]; omega, fun _ h₅ => ?_⟩
    omega
  rw [rebal_of_le hleft hright]
  exact ⟨⟨hl, hr, hleft, hright⟩, by omega, le_refl _, fun _ _ => rfl⟩

/-- Rebalancing never makes a node taller, balanced or not. -/
theorem height_rebal_le (t : IdTree) : (rebal t).height ≤ t.height := by
  rcases t with _ | ⟨l, x, r⟩
  · exact le_refl _
  by_cases hleft : r.height + 1 < l.height
  · obtain ⟨a, y, m, rfl⟩ := exists_node_of_height_pos (show 0 < l.height by omega)
    rw [rebal_of_left hleft]
    split
    · next hlean =>
      simp only [leftHeight_node, rightHeight_node] at hlean
      obtain ⟨m₁, w, m₂, rfl⟩ := exists_node_of_height_pos (show 0 < m.height by omega)
      simp only [rotL, rotR, height_node] at hleft ⊢
      omega
    · simp only [rotR, height_node] at hleft ⊢
      omega
  by_cases hright : l.height + 1 < r.height
  · obtain ⟨m, y, e, rfl⟩ := exists_node_of_height_pos (show 0 < r.height by omega)
    rw [rebal_of_right hleft hright]
    split
    · next hlean =>
      simp only [leftHeight_node, rightHeight_node] at hlean
      obtain ⟨m₁, w, m₂, rfl⟩ := exists_node_of_height_pos (show 0 < m.height by omega)
      simp only [rotL, rotR, height_node] at hright ⊢
      omega
    · simp only [rotL, height_node] at hright ⊢
      omega
  rw [rebal_of_le (by omega) (by omega)]

/-! ## Height and size -/

/-- A balanced tree is short: its height is at most twice the binary logarithm of its size,
as each node's lower side is at most one level lower than its higher side. -/
theorem Balanced.pow_height_le : ∀ {t : IdTree}, t.Balanced → 2 ^ (t.height / 2) ≤ t.toList.length + 1
  | nil, _ => by simp
  | node l x r, ⟨hl, hr, h₁, h₂⟩ => by
    have il := hl.pow_height_le
    have ir := hr.pow_height_le
    simp only [height_node, toList_node, List.length_append, List.length_cons]
    -- the higher side has height `h - 1`, the lower one at least `h - 2`
    have hlow : 2 ^ ((max l.height r.height + 1) / 2) ≤ 2 ^ (l.height / 2) + 2 ^ (r.height / 2) := by
      rcases Nat.eq_zero_or_pos (max l.height r.height) with h0 | hpos
      · have hk : (max l.height r.height + 1) / 2 = 0 := by omega
        have : 1 ≤ 2 ^ (l.height / 2) := Nat.one_le_two_pow
        have : 1 ≤ 2 ^ (r.height / 2) := Nat.one_le_two_pow
        rw [hk, pow_zero]
        omega
      have hk : (max l.height r.height + 1) / 2 = (max l.height r.height - 1) / 2 + 1 := by omega
      have hl' : 2 ^ ((max l.height r.height - 1) / 2) ≤ 2 ^ (l.height / 2) :=
        Nat.pow_le_pow_right (by norm_num) (by omega)
      have hr' : 2 ^ ((max l.height r.height - 1) / 2) ≤ 2 ^ (r.height / 2) :=
        Nat.pow_le_pow_right (by norm_num) (by omega)
      rw [hk, pow_succ]
      omega
    omega

end IdTree

/-! ## Walking back to the root -/

/-- A tree with a hole: the path from the hole up to the root, each step naming the node above
and its subtree on the other side. -/
inductive Ctx where
  | top
  /-- The hole is the left subtree of `x`, whose right subtree is `r`. -/
  | inL (c : Ctx) (x : Nat) (r : IdTree)
  /-- The hole is the right subtree of `x`, whose left subtree is `l`. -/
  | inR (l : IdTree) (x : Nat) (c : Ctx)
deriving DecidableEq, Repr

namespace Ctx

open IdTree

/-- The tree with `t` in the hole. -/
def plug : Ctx → IdTree → IdTree
  | top, t => t
  | inL c x r, t => plug c (node t x r)
  | inR l x c, t => plug c (node l x t)

/-- Rebalances every node from the hole up to the root, with `t` in the hole. -/
def retraceUp : Ctx → IdTree → IdTree
  | top, t => t
  | inL c x r, t => retraceUp c (rebal (node t x r))
  | inR l x c, t => retraceUp c (rebal (node l x t))

theorem toList_plug_congr (c : Ctx) {t t' : IdTree} (h : t.toList = t'.toList) :
    (c.plug t).toList = (c.plug t').toList := by
  induction c generalizing t t' with
  | top => exact h
  | inL c x r ih => exact ih (by simp [h])
  | inR l x c ih => exact ih (by simp [h])

/-- Rebalancing on the way up keeps the ids in order. -/
@[simp] theorem toList_retraceUp (c : Ctx) (t : IdTree) : (c.retraceUp t).toList = (c.plug t).toList := by
  induction c generalizing t with
  | top => rfl
  | inL c x r ih => exact (ih _).trans (toList_plug_congr c (by simp))
  | inR l x c ih => exact (ih _).trans (toList_plug_congr c (by simp))

theorem balanced_of_plug : ∀ {c : Ctx} {t : IdTree}, (c.plug t).Balanced → t.Balanced
  | top, _, h => h
  | inL _ x r, t, h => (show (node t x r).Balanced from balanced_of_plug h).1
  | inR l x _, t, h => (show (node l x t).Balanced from balanced_of_plug h).2.1

/-- Rebalancing at a node whose subtrees each grew by at most one level, from a balanced node,
gives a balanced node as high as before or one level higher. -/
theorem rebal_grow {l r l₀ r₀ : IdTree} {x : Nat} (hl : l.Balanced) (hr : r.Balanced)
    (h₀ : (node l₀ x r₀).Balanced) (hl₁ : l₀.height ≤ l.height) (hl₂ : l.height ≤ l₀.height + 1)
    (hr₁ : r₀.height ≤ r.height) (hr₂ : r.height ≤ r₀.height + 1) :
    (rebal (node l x r)).Balanced ∧ (node l₀ x r₀).height ≤ (rebal (node l x r)).height ∧
      (rebal (node l x r)).height ≤ (node l₀ x r₀).height + 1 := by
  obtain ⟨-, -, h₁, h₂⟩ := h₀
  obtain ⟨hb, hlo, hhi, hsame⟩ := @rebal_near l r x hl hr (by omega) (by omega)
  simp only [height_node] at hlo hhi ⊢
  refine ⟨hb, ?_, ?_⟩
  all_goals
    by_cases hrot : l.height ≤ r.height + 1 ∧ r.height ≤ l.height + 1
    · rw [hsame hrot.1 hrot.2, height_node]
      omega
    · omega

/-- Rebalancing at a node whose subtrees each shrank by at most one level, from a balanced
node, gives a balanced node as high as before or one level lower. -/
theorem rebal_shrink {l r l₀ r₀ : IdTree} {x : Nat} (hl : l.Balanced) (hr : r.Balanced)
    (h₀ : (node l₀ x r₀).Balanced) (hl₁ : l.height ≤ l₀.height) (hl₂ : l₀.height ≤ l.height + 1)
    (hr₁ : r.height ≤ r₀.height) (hr₂ : r₀.height ≤ r.height + 1) :
    (rebal (node l x r)).Balanced ∧ (node l₀ x r₀).height ≤ (rebal (node l x r)).height + 1 ∧
      (rebal (node l x r)).height ≤ (node l₀ x r₀).height := by
  obtain ⟨-, -, h₁, h₂⟩ := h₀
  obtain ⟨hb, hlo, hhi, hsame⟩ := @rebal_near l r x hl hr (by omega) (by omega)
  simp only [height_node] at hlo hhi ⊢
  refine ⟨hb, ?_, ?_⟩
  all_goals
    by_cases hrot : l.height ≤ r.height + 1 ∧ r.height ≤ l.height + 1
    · rw [hsame hrot.1 hrot.2, height_node]
      omega
    · omega

/-- After an insertion: with the hole's subtree balanced and grown by at most one level in a
tree that was balanced, retracing leaves a balanced tree at most one level higher. -/
theorem balanced_retraceUp_grow : ∀ (c : Ctx) {t t₀ : IdTree}, (c.plug t₀).Balanced → t.Balanced →
    t₀.height ≤ t.height → t.height ≤ t₀.height + 1 →
    (c.retraceUp t).Balanced ∧ (c.plug t₀).height ≤ (c.retraceUp t).height ∧
      (c.retraceUp t).height ≤ (c.plug t₀).height + 1
  | top, _, _, _, ht, hg₁, hg₂ => ⟨ht, hg₁, hg₂⟩
  | inL c x r, t, t₀, h₀, ht, hg₁, hg₂ => by
    have hn : (node t₀ x r).Balanced := balanced_of_plug h₀
    obtain ⟨hb, h₁, h₂⟩ := rebal_grow ht hn.2.1 hn hg₁ hg₂ le_rfl (Nat.le_succ _)
    exact balanced_retraceUp_grow c h₀ hb h₁ h₂
  | inR l x c, t, t₀, h₀, ht, hg₁, hg₂ => by
    have hn : (node l x t₀).Balanced := balanced_of_plug h₀
    obtain ⟨hb, h₁, h₂⟩ := rebal_grow hn.1 ht hn le_rfl (Nat.le_succ _) hg₁ hg₂
    exact balanced_retraceUp_grow c h₀ hb h₁ h₂

/-- After a deletion: with the hole's subtree balanced and shrunk by at most one level in a
tree that was balanced, retracing leaves a balanced tree at most one level lower. -/
theorem balanced_retraceUp_shrink : ∀ (c : Ctx) {t t₀ : IdTree}, (c.plug t₀).Balanced → t.Balanced →
    t.height ≤ t₀.height → t₀.height ≤ t.height + 1 →
    (c.retraceUp t).Balanced ∧ (c.plug t₀).height ≤ (c.retraceUp t).height + 1 ∧
      (c.retraceUp t).height ≤ (c.plug t₀).height
  | top, _, _, _, ht, hs₁, hs₂ => ⟨ht, hs₂, hs₁⟩
  | inL c x r, t, t₀, h₀, ht, hs₁, hs₂ => by
    have hn : (node t₀ x r).Balanced := balanced_of_plug h₀
    obtain ⟨hb, h₁, h₂⟩ := rebal_shrink ht hn.2.1 hn hs₁ hs₂ le_rfl (Nat.le_succ _)
    exact balanced_retraceUp_shrink c h₀ hb h₂ h₁
  | inR l x c, t, t₀, h₀, ht, hs₁, hs₂ => by
    have hn : (node l x t₀).Balanced := balanced_of_plug h₀
    obtain ⟨hb, h₁, h₂⟩ := rebal_shrink hn.1 ht hn le_rfl (Nat.le_succ _) hs₁ hs₂
    exact balanced_retraceUp_shrink c h₀ hb h₂ h₁

/-- The ids in order before the hole. -/
def before : Ctx → List Nat
  | top => []
  | inL c _ _ => before c
  | inR l x c => before c ++ l.toList ++ [x]

/-- The ids in order after the hole. -/
def after : Ctx → List Nat
  | top => []
  | inL c x r => x :: r.toList ++ after c
  | inR _ _ c => after c

/-- The number of ancestors of the hole. -/
def length : Ctx → Nat
  | top => 0
  | inL c _ _ => c.length + 1
  | inR _ _ c => c.length + 1

/-- Plugging a shorter subtree gives a tree no taller. -/
theorem height_plug_le (c : Ctx) {t t' : IdTree} (h : t'.height ≤ t.height) :
    (c.plug t').height ≤ (c.plug t).height := by
  induction c generalizing t t' with
  | top => exact h
  | inL c x r ih => exact ih (by simp only [height_node]; omega)
  | inR l x c ih => exact ih (by simp only [height_node]; omega)

/-- Plugging a subtree at most `k` levels taller gives a tree at most `k` levels taller. -/
theorem height_plug_le_add (c : Ctx) {t t' : IdTree} {k : Nat} (h : t'.height ≤ t.height + k) :
    (c.plug t').height ≤ (c.plug t).height + k := by
  induction c generalizing t t' with
  | top => exact h
  | inL c x r ih => exact ih (by simp only [height_node]; omega)
  | inR l x c ih => exact ih (by simp only [height_node]; omega)

theorem height_le_plug (c : Ctx) (t : IdTree) : t.height ≤ (c.plug t).height := by
  induction c generalizing t with
  | top => exact le_refl _
  | inL c x r ih => exact le_trans (by simp only [height_node]; omega) (ih _)
  | inR l x c ih => exact le_trans (by simp only [height_node]; omega) (ih _)

/-- Each ancestor of the hole adds a level above the subtree in it. -/
theorem length_add_height_le (c : Ctx) (t : IdTree) : c.length + t.height ≤ (c.plug t).height := by
  induction c generalizing t with
  | top => simp [length, plug]
  | inL c x r ih => exact le_trans (by simp only [length, height_node]; omega) (ih _)
  | inR l x c ih => exact le_trans (by simp only [length, height_node]; omega) (ih _)

/-- Rebalancing on the way up never makes a tree taller. -/
theorem height_retraceUp_le (c : Ctx) (t : IdTree) : (c.retraceUp t).height ≤ (c.plug t).height := by
  induction c generalizing t with
  | top => exact le_refl _
  | inL c x r ih => exact le_trans (ih _) (height_plug_le c (height_rebal_le _))
  | inR l x c ih => exact le_trans (ih _) (height_plug_le c (height_rebal_le _))

theorem toList_plug (c : Ctx) (t : IdTree) : (c.plug t).toList = c.before ++ t.toList ++ c.after := by
  induction c generalizing t with
  | top => simp [plug, before, after]
  | inL c x r ih => simp [plug, before, after, ih]
  | inR l x c ih => simp [plug, before, after, ih]

end Ctx

/-! ## Where a new id goes -/

/-- Inserts `a` right after the last element that satisfies `p`, or first when none does. -/
def insertAfterLast {α : Type} (p : α → Bool) (a : α) : List α → List α
  | [] => [a]
  | y :: ys => if ys.any p then y :: insertAfterLast p a ys else if p y then y :: a :: ys else a :: y :: ys

section insertAfterLast

variable {α : Type} (p : α → Bool) (a : α)

theorem insertAfterLast_of_none : ∀ {L : List α}, (∀ y ∈ L, p y = false) → insertAfterLast p a L = a :: L
  | [], _ => rfl
  | y :: ys, h => by
    have hy : p y = false := h y List.mem_cons_self
    have hys : ys.any p = false := by
      simpa using fun z hz => h z (List.mem_cons_of_mem y hz)
    simp [insertAfterLast, hy, hys]

/-- Elements after the insertion point that do not satisfy `p` stay after it. -/
theorem insertAfterLast_append_of_none (L₁ : List α) {L₂ : List α} (h : ∀ y ∈ L₂, p y = false) :
    insertAfterLast p a (L₁ ++ L₂) = insertAfterLast p a L₁ ++ L₂ := by
  induction L₁ with
  | nil => simpa [insertAfterLast] using insertAfterLast_of_none p a h
  | cons y ys ih =>
    have hany : (ys ++ L₂).any p = ys.any p := by
      simp only [List.any_append, Bool.or_eq_left_iff_imp]
      intro hL
      obtain ⟨z, hz, hpz⟩ := List.any_eq_true.mp hL
      exact absurd hpz (by simp [h z hz])
    simp only [List.cons_append, insertAfterLast, hany]
    split_ifs <;> simp [ih]

/-- Elements before an element that satisfies `p` stay before the inserted one. -/
theorem insertAfterLast_append_of_some (L₁ : List α) {L₂ : List α} (h : L₂.any p = true) :
    insertAfterLast p a (L₁ ++ L₂) = L₁ ++ insertAfterLast p a L₂ := by
  induction L₁ with
  | nil => rfl
  | cons y ys ih =>
    have hany : (ys ++ L₂).any p = true := by simp [List.any_append, h]
    simp [insertAfterLast, hany, ih]

end insertAfterLast

namespace Ctx

open IdTree

/-- The hole an id goes into, descending from `t` below `c`: left when `goLeft` says the node's
value is larger, right otherwise. -/
def descent (goLeft : Nat → Bool) : Ctx → IdTree → Ctx
  | c, nil => c
  | c, node l x r => if goLeft x then descent goLeft (inL c x r) l else descent goLeft (inR l x c) r

theorem plug_descent (goLeft : Nat → Bool) : ∀ (c : Ctx) (t : IdTree), (c.descent goLeft t).plug nil = c.plug t
  | _, nil => rfl
  | c, node l x r => by
    unfold descent
    split
    · exact plug_descent goLeft _ l
    · exact plug_descent goLeft _ r

/-- A descent passes at most one node per level. -/
theorem length_descent_le (goLeft : Nat → Bool) :
    ∀ (c : Ctx) (t : IdTree), (c.descent goLeft t).length ≤ c.length + t.height
  | _, nil => by simp [descent]
  | c, node l x r => by
    unfold descent
    split
    · have := length_descent_le goLeft (inL c x r) l
      simp only [length, height_node] at this ⊢
      omega
    · have := length_descent_le goLeft (inR l x c) r
      simp only [length, height_node] at this ⊢
      omega

/-- A leaf in a hole adds its id to the ids of the tree around it. -/
theorem toList_plug_leaf_perm (c : Ctx) (a : Nat) :
    (c.plug (node nil a nil)).toList.Perm (a :: (c.plug nil).toList) := by
  rw [toList_plug, toList_plug]
  exact List.perm_iff_count.mpr fun b => by
    simp only [toList_node, toList_nil, List.nil_append, List.count_append, List.count_cons, List.count_nil]
    omega

/-- In a tree whose ids go left of the new one only before ids that do, descending places the
new id right after the last id it does not go left of. -/
theorem toList_plug_descent (goLeft : Nat → Bool) (a : Nat) :
    ∀ (c : Ctx) (t : IdTree), t.toList.Pairwise (fun x y => goLeft x = true → goLeft y = true) →
      ((c.descent goLeft t).plug (node nil a nil)).toList =
        c.before ++ insertAfterLast (fun y => !goLeft y) a t.toList ++ c.after
  | c, nil, _ => by simp [descent, toList_plug, insertAfterLast]
  | c, node l x r, hs => by
    have hs' := hs
    simp only [toList_node, List.pairwise_append, List.pairwise_cons] at hs'
    obtain ⟨hl, ⟨hx, hr⟩, hlx⟩ := hs'
    unfold descent
    split
    · next hgo =>
      -- every id of `r` lies after `x`, so the new one goes before all of them
      rw [toList_plug_descent goLeft a _ l hl, toList_node,
        insertAfterLast_append_of_none _ _ _ (fun y hy => ?_)]
      · simp [before, after]
      · rcases List.mem_cons.mp hy with rfl | hy
        · simp [hgo]
        · simp [hx y hy hgo]
    · next hgo =>
      rw [toList_plug_descent goLeft a _ r hr, toList_node,
        insertAfterLast_append_of_some _ _ _ (by simp [hgo])]
      simp only [before, after, insertAfterLast, hgo, Bool.not_false, if_true, List.append_assoc,
        List.cons_append]
      split_ifs with hany
      · rfl
      · -- no id of `r` stays left of the new one: it goes right after `x`
        have hnone : ∀ y ∈ r.toList, (!goLeft y) = false := by
          intro y hy
          by_contra hy'
          exact hany (List.any_eq_true.mpr ⟨y, hy, by simpa using hy'⟩)
        rw [insertAfterLast_of_none _ _ hnone]
        simp

/-! ## Taking an id out -/

/-- The leftmost node of `node l x r` in the hole of `c`: its context, its id and its right
subtree. -/
def leftmost : Ctx → IdTree → Nat → IdTree → Ctx × Nat × IdTree
  | c, nil, x, r => (c, x, r)
  | c, node ll y lr, x, r => leftmost (inL c x r) ll y lr

theorem plug_leftmost : ∀ (c : Ctx) (l : IdTree) (x : Nat) (r : IdTree),
    (c.leftmost l x r).1.plug (node nil (c.leftmost l x r).2.1 (c.leftmost l x r).2.2) = c.plug (node l x r)
  | _, nil, _, _ => rfl
  | c, node ll y lr, x, r => plug_leftmost (inL c x r) ll y lr

theorem before_leftmost : ∀ (c : Ctx) (l : IdTree) (x : Nat) (r : IdTree),
    (c.leftmost l x r).1.before = c.before
  | _, nil, _, _ => rfl
  | c, node ll y lr, x, r => before_leftmost (inL c x r) ll y lr

theorem mem_leftmost : ∀ (c : Ctx) (l : IdTree) (x : Nat) (r : IdTree),
    (c.leftmost l x r).2.1 ∈ (node l x r).toList
  | _, nil, _, _ => by simp [leftmost]
  | c, node ll y lr, x, r => by
    have := mem_leftmost (inL c x r) ll y lr
    rw [leftmost]
    simp only [toList_node, List.mem_append, List.mem_cons] at this ⊢
    tauto

end Ctx

namespace IdTree

/-- The tree with the node `a` renamed `b`. -/
def replaceId (a b : Nat) : IdTree → IdTree
  | nil => nil
  | node l x r => node (replaceId a b l) (if x = a then b else x) (replaceId a b r)

@[simp] theorem height_replaceId (a b : Nat) (t : IdTree) : (t.replaceId a b).height = t.height := by
  induction t with
  | nil => rfl
  | node l x r ihl ihr => simp [replaceId, ihl, ihr]

theorem balanced_replaceId (a b : Nat) {t : IdTree} (h : t.Balanced) : (t.replaceId a b).Balanced := by
  induction t with
  | nil => trivial
  | node l x r ihl ihr =>
    obtain ⟨hl, hr, h₁, h₂⟩ := h
    exact ⟨ihl hl, ihr hr, by simpa using h₁, by simpa using h₂⟩

theorem toList_replaceId (a b : Nat) (t : IdTree) :
    (t.replaceId a b).toList = t.toList.map fun y => if y = a then b else y := by
  induction t with
  | nil => rfl
  | node l x r ihl ihr => simp [replaceId, ihl, ihr]

theorem replaceId_of_not_mem {a : Nat} (b : Nat) {t : IdTree} (h : a ∉ t.toList) : t.replaceId a b = t := by
  induction t with
  | nil => rfl
  | node l x r ihl ihr =>
    simp only [toList_node, List.mem_append, List.mem_cons, not_or] at h
    simp [replaceId, ihl h.1, ihr h.2.2, Ne.symm h.2.1]

/-- Every id of a tree is the root of one of its subtrees. -/
theorem exists_plug_of_mem {x : Nat} : ∀ (c : Ctx) {t : IdTree}, x ∈ t.toList →
    ∃ (C : Ctx) (a b : IdTree), c.plug t = C.plug (node a x b)
  | _, nil, h => absurd h List.not_mem_nil
  | c, node l y r, h => by
    rcases List.mem_append.mp h with hl | hr
    · exact exists_plug_of_mem (.inL c y r) hl
    · rcases List.mem_cons.mp hr with rfl | hr
      · exact ⟨c, l, r, rfl⟩
      · exact exists_plug_of_mem (.inR l y c) hr

end IdTree

/-! ## Taking a node out -/

namespace Ctx

open IdTree

/-- Renaming an id that only the subtree in the hole holds renames it there. -/
theorem replaceId_plug {a : Nat} (b : Nat) (c : Ctx) (t : IdTree) (hc : a ∉ c.before ++ c.after) :
    (c.plug t).replaceId a b = c.plug (t.replaceId a b) := by
  induction c generalizing t with
  | top => rfl
  | inL c x r ih =>
    simp only [before, after, List.mem_append, List.mem_cons, not_or] at hc
    obtain ⟨hb, ⟨hax, har⟩, haf⟩ := hc
    rw [plug, ih _ (by simp [hb, haf]), plug]
    simp [replaceId, replaceId_of_not_mem b har, Ne.symm hax]
  | inR l x c ih =>
    simp only [before, after, List.mem_append, List.mem_cons, List.not_mem_nil, not_or] at hc
    obtain ⟨⟨⟨hb, hal⟩, hax, -⟩, haf⟩ := hc
    rw [plug, ih _ (by simp [hb, haf]), plug]
    simp [replaceId, replaceId_of_not_mem b hal, Ne.symm hax]

/-- The tree around the hole of `c` once its node `x`, with subtrees `a` and `b`, is taken out
and the path above rebalanced. With a subtree empty the other one takes the node's place; with
none empty the node's successor, the leftmost node of `b`, is first taken out of its own place
and then takes the node's place. -/
def removeAt (c : Ctx) : IdTree → Nat → IdTree → IdTree
  | nil, _, b => c.retraceUp b
  | node al ax ar, _, nil => c.retraceUp (node al ax ar)
  | node al ax ar, x, node bl y br =>
    let s := (inR (node al ax ar) x c).leftmost bl y br
    (s.1.retraceUp s.2.2).replaceId x s.2.1

theorem erase_append_cons {x : Nat} {L₁ : List Nat} (L₂ : List Nat) (h : x ∉ L₁) :
    (L₁ ++ x :: L₂).erase x = L₁ ++ L₂ := by
  rw [List.erase_append_right _ h, List.erase_cons_head]

theorem map_replace_of_not_mem {x : Nat} (m : Nat) {L : List Nat} (h : x ∉ L) :
    L.map (fun y => if y = x then m else y) = L := by
  conv_rhs => rw [← List.map_id L]
  exact List.map_congr_left fun y hy => if_neg fun (e : y = x) => h (e ▸ hy)

/-- Taking a node out of a tree of distinct ids takes its id out of the ids in order. -/
theorem toList_removeAt (c : Ctx) (a : IdTree) (x : Nat) (b : IdTree)
    (hnd : (c.plug (node a x b)).toList.Nodup) :
    (c.removeAt a x b).toList = (c.plug (node a x b)).toList.erase x := by
  have hx : x ∉ c.before ++ a.toList := by
    rw [toList_plug] at hnd
    intro hx
    have := List.nodup_append.mp hnd
    simp only [toList_node, List.nodup_append, List.nodup_cons] at this
    rcases List.mem_append.mp hx with hx | hx
    · exact this.1.2.2 x hx x (by simp) rfl
    · exact this.1.2.1.2.2 x hx x (by simp) rfl
  have hT : (c.plug (node a x b)).toList = (c.before ++ a.toList) ++ x :: (b.toList ++ c.after) := by
    simp [toList_plug]
  rw [hT, erase_append_cons _ hx]
  match a, b with
  | nil, b => simp [removeAt, toList_plug]
  | node al ax ar, nil => simp [removeAt, toList_plug]
  | node al ax ar, node bl y br =>
    -- the successor `m` comes right after `x`: renaming `x` to `m` once `m` is out puts it there
    rcases hs : (inR (node al ax ar) x c).leftmost bl y br with ⟨C', m, mr⟩
    have hplug := plug_leftmost (inR (node al ax ar) x c) bl y br
    have hbefore := before_leftmost (inR (node al ax ar) x c) bl y br
    rw [hs] at hplug hbefore
    have hL := congrArg toList hplug
    simp only [toList_plug, hbefore, before, plug, toList_node, toList_nil, List.nil_append,
      List.append_assoc, List.cons_append, List.append_cancel_left_eq, List.cons.injEq, true_and] at hL
    have hrest : (node bl y br).toList ++ c.after = m :: (mr.toList ++ C'.after) := by
      simpa using hL.symm
    rw [hT, hrest] at hnd
    have hxr : x ∉ m :: (mr.toList ++ C'.after) := (List.nodup_cons.mp (List.nodup_append.mp hnd).2.1).1
    have hxb : x ∉ c.before := fun h => hx (List.mem_append_left _ h)
    have hxa : x ∉ (node al ax ar).toList := fun h => hx (List.mem_append_right _ h)
    simp only [List.mem_cons, List.mem_append, not_or] at hxr
    rw [hrest]
    simp only [removeAt, hs, toList_replaceId, Ctx.toList_retraceUp, toList_plug, hbefore, before,
      List.map_append, List.map_cons, List.map_nil]
    rw [map_replace_of_not_mem m hxb, map_replace_of_not_mem m hxa, map_replace_of_not_mem m hxr.2.1,
      map_replace_of_not_mem m hxr.2.2]
    simp

theorem balanced_removeAt (c : Ctx) (a : IdTree) (x : Nat) (b : IdTree)
    (h : (c.plug (node a x b)).Balanced) :
    (c.removeAt a x b).Balanced ∧ (c.removeAt a x b).height ≤ (c.plug (node a x b)).height := by
  match a, b with
  | nil, b =>
    obtain ⟨hb, -, h₂⟩ := balanced_retraceUp_shrink c h (balanced_of_plug h).2.1 (by simp) (by simp)
    exact ⟨hb, h₂⟩
  | node al ax ar, nil =>
    obtain ⟨hb, -, h₂⟩ := balanced_retraceUp_shrink c h (balanced_of_plug h).1 (by simp) (by simp)
    exact ⟨hb, h₂⟩
  | node al ax ar, node bl y br =>
    have hplug := plug_leftmost (inR (node al ax ar) x c) bl y br
    set s := (inR (node al ax ar) x c).leftmost bl y br
    have h₀ : (s.1.plug (node nil s.2.1 s.2.2)).Balanced := by rw [hplug]; exact h
    obtain ⟨hb, -, h₂⟩ := balanced_retraceUp_shrink s.1 h₀ (balanced_of_plug h₀).2.1 (by simp) (by simp)
    rw [hplug] at h₂
    refine ⟨balanced_replaceId _ _ hb, ?_⟩
    simp only [removeAt, height_replaceId]
    exact h₂

end Ctx

end ColumnDb.Tree
