import Mathlib
import ColumnDb.Proofs.TreeModel

/-!
# How high the tree of a tree file grows

A node caches the heights of its two subtrees in one byte each, and the height of its own subtree
is read as one more than the larger of the two, again as a byte. That never wraps. An AVL tree of
height `h` has at least `fib (h + 2) - 1` nodes (`IdTree.Balanced.fib_le`), and the ids of a
file's tree are distinct 64-bit numbers other than 0, fewer than `fib 94 - 1`; so its tree is at
most 91 levels high (`IdTree.Balanced.height_le_91`).

Every file reached from a new file by its own operations holds such a tree with exact cached
heights (`RowEvent.runFile_shaped`). So each node it allocates caches heights of at most 90 that
differ by at most one, and the height they give is exactly one more than the larger
(`RowEvent.runFile_heights_short`).
-/

set_option autoImplicit false

namespace ColumnDb.Tree

open ColumnDb.Slot ColumnDb.Disk

namespace IdTree

/-- An AVL tree of height `h` has at least `fib (h + 2) - 1` nodes. Below the root one side is one
level lower than the tree, the other at most two, and `fib (h + 2) = fib h + fib (h + 1)`. -/
theorem Balanced.fib_le : ∀ {t : IdTree}, t.Balanced → Nat.fib (t.height + 2) ≤ t.toList.length + 1
  | nil, _ => by simp
  | node l x r, ⟨hl, hr, h₁, h₂⟩ => by
    have il := hl.fib_le
    have ir := hr.fib_le
    simp only [height_node, toList_node, List.length_append, List.length_cons]
    rcases le_total l.height r.height with hle | hle
    · have hlow : Nat.fib (r.height + 1) ≤ Nat.fib (l.height + 2) := Nat.fib_mono (by omega)
      have hsplit : Nat.fib (r.height + 1 + 2) = Nat.fib (r.height + 1) + Nat.fib (r.height + 2) :=
        Nat.fib_add_two
      rw [max_eq_right hle, hsplit]
      omega
    · have hlow : Nat.fib (l.height + 1) ≤ Nat.fib (r.height + 2) := Nat.fib_mono (by omega)
      have hsplit : Nat.fib (l.height + 1 + 2) = Nat.fib (l.height + 1) + Nat.fib (l.height + 2) :=
        Nat.fib_add_two
      rw [max_eq_left hle, hsplit]
      omega

/-- `fib 94` is the first Fibonacci number above `2 ^ 64`. -/
theorem pow_lt_fib_94 : Nat.pow 256 8 < Nat.fib 94 := by
  rw [Nat.pow_eq]
  norm_num

/-- An AVL tree of fewer than `2 ^ 64` nodes is at most 91 levels high. -/
theorem Balanced.height_le_91 {t : IdTree} (h : t.Balanced) (hsize : t.toList.length < Nat.pow 256 8) :
    t.height ≤ 91 := by
  by_contra hgt
  have hfib := h.fib_le
  have hmono : Nat.fib 94 ≤ Nat.fib (t.height + 2) := Nat.fib_mono (by omega)
  have := pow_lt_fib_94
  omega

/-- A tree of ids has fewer than `2 ^ 64` nodes: its ids are distinct, none is 0, and each fits
a link. -/
theorem Ids.length_lt {t : IdTree} (h : t.Ids) : t.toList.length < Nat.pow 256 8 := by
  have hpow : 0 < Nat.pow 256 8 := by rw [Nat.pow_eq]; norm_num
  have hlen := length_le_of_nodup_pos_le (n := Nat.pow 256 8 - 1) h.nodup fun k hk =>
    ⟨h.pos k hk, by have := h.lt k hk; omega⟩
  omega

end IdTree

variable {H : Heap} {val : Nat → Value}

/-- A heap holding a balanced tree at most `b + 1` levels high caches, at each node of the tree,
heights of at most `b` that differ by at most one. -/
theorem Rep.depths_le {b : Nat} : ∀ {p : Nat} {T : IdTree}, Rep H val p T → T.Balanced → T.height ≤ b + 1 →
    ∀ k ∈ T.toList, ∃ v, H k = some v ∧ v.leftDepth ≤ b ∧ v.rightDepth ≤ b ∧
      v.leftDepth ≤ v.rightDepth + 1 ∧ v.rightDepth ≤ v.leftDepth + 1
  | _, .nil, _, _, _, k, hk => absurd hk List.not_mem_nil
  | _, .node l x r, ⟨_, hv, hrl, hrr⟩, ⟨hbl, hbr, h₁, h₂⟩, hh, k, hk => by
    simp only [IdTree.height_node] at hh
    simp only [IdTree.toList_node, List.mem_append, List.mem_cons] at hk
    rcases hk with hk | rfl | hk
    · exact Rep.depths_le hrl hbl (by omega) k hk
    · exact ⟨_, hv, show l.height ≤ b by omega, show r.height ≤ b by omega, h₁, h₂⟩
    · exact Rep.depths_le hrr hbr (by omega) k hk

namespace RowEvent

section New

variable {d : Disk} {store : StoreRef} {label : String} {kind : ValueKind} {capacity : Nat} {t : TreeFile}

/-- Every file reached from a file opened on an empty store by an allowed run of events, reopening
included, holds a tree at most 91 levels high whose nodes cache the exact heights of their
subtrees. At every node it allocates the two cached heights are at most 90 and differ by at most
one, so the height they give, `1 + max` as a byte, is at most 91 and never wraps. -/
theorem runFile_heights_short (hcap : capacity < Nat.pow 256 4) (hs : store.store < d.stores.size)
    (hempty : d.size store.store = 0) (hopen : TreeFile.open d store label kind capacity = .ok t)
    (es : List RowEvent)
    (hes : AllowedRun kind (NodeSlot.payloadCapacity t.core.layout) ⟨t.core.allocator.pool, []⟩ es) :
    ∃ T val, (runFile es (d, t)).2.2.Shape (runFile es (d, t)).2.1 T val ∧ T.height ≤ 91 ∧
      ∀ k, (runFile es (d, t)).2.2.core.isAllocated k = true →
        ∃ v, (runFile es (d, t)).2.2.heap (runFile es (d, t)).2.1 k = some v ∧
          v.leftDepth ≤ 90 ∧ v.rightDepth ≤ 90 ∧ v.depth = 1 + max v.leftDepth v.rightDepth ∧
          -1 ≤ (v.leftDepth : Int) - v.rightDepth ∧ (v.leftDepth : Int) - v.rightDepth ≤ 1 := by
  obtain ⟨T, val, hshape, -⟩ := (runFile_new hcap hs hempty hopen es hes).2.1.shape
  have hheight := hshape.balanced.height_le_91 hshape.ids.length_lt
  refine ⟨T, val, hshape, hheight, fun k hk => ?_⟩
  obtain ⟨v, hv, hl, hr, hlr, hrl⟩ :=
    Rep.depths_le hshape.rep hshape.balanced (by omega) k ((hshape.allocated k).mp hk)
  refine ⟨v, hv, hl, hr, ?_, by omega, by omega⟩
  unfold NodeView.depth
  omega

/-- The new file of 64-bit integers after adding 1 to 5 in ascending order, reopening and deleting
the second row. -/
theorem runFile_heights_short_ascending :
    let d : Disk := { stores := #[ByteArray.empty] }
    let t : TreeFile := ⟨⟨"t", ⟨0, none⟩, ⟨20, 64⟩, Cell.create 8 4 64, Allocator.create ⟨20, 64⟩, true, false⟩,
      .int .i64, Cell.create 12 8 0, ∅⟩
    let es : List RowEvent := [.add (.int .i64 1) none, .add (.int .i64 2) none, .add (.int .i64 3) none,
      .add (.int .i64 4) none, .add (.int .i64 5) none, .reopen, .delete 2]
    let r := runFile es (d, t)
    TreeFile.open d ⟨0, none⟩ "t" (.int .i64) 64 = .ok t ∧
      AllowedRun (.int .i64) 34 ⟨(Allocator.create ⟨20, 64⟩).pool, []⟩ es ∧
      ∃ T val, r.2.2.Shape r.2.1 T val ∧ T.height ≤ 91 ∧
        ∀ k, r.2.2.core.isAllocated k = true →
          ∃ v, r.2.2.heap r.2.1 k = some v ∧
            v.leftDepth ≤ 90 ∧ v.rightDepth ≤ 90 ∧ v.depth = 1 + max v.leftDepth v.rightDepth ∧
            -1 ≤ (v.leftDepth : Int) - v.rightDepth ∧ (v.leftDepth : Int) - v.rightDepth ≤ 1 :=
  ⟨rfl, by decide, @runFile_heights_short _ ⟨0, none⟩ "t" (.int .i64) 64 _ (by decide) (by decide) (by decide) rfl _
    (by decide)⟩

end New

end RowEvent

end ColumnDb.Tree
