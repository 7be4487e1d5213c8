import Mathlib
import ColumnDb.Proofs.TreeHeight

/-!
# Walks along the links of a tree file

A walk and a range search follow the left and right links they read from the store, and opening
a tree file checks none of them: on any bytes whose capacity and free chain its file part
accepts, a tree file opens sound (`TreeFile.sound_open`). The walks are given `linkBound` steps,
one per 64-bit id, and a link that leads back to a node on the path keeps them going for all of
those steps. A root whose left link is its own id is walked once per step
(`TreeFile.walkFor_self_linked`), so listing such a file answers the root `linkBound` times
(`TreeFile.lists_self_linked_root`). Overwriting one link of a flushed file of one row is
enough, and the file still opens (`TreeFile.all_repeats_self_linked_root`): nothing reports the
file corrupt.

On every file the program writes itself, opened on an empty store and changed by its own
operations, reopening included, the links form a balanced tree at most 91 levels high. There a
walk and a search from the root reach the bottom within 91 levels: every fuel of at least 91
answers the rows and the matching rows (`TreeFile.Rows.walks_within`,
`RowEvent.runFile_walks_within_height`).
-/

set_option autoImplicit false

namespace ColumnDb.Slot.BlockFile

open ColumnDb.Disk

variable {d : Disk} {f : BlockFile}

/-- A file part that opens has the layout and store it was opened with, and is open. -/
theorem fields_of_open {store : StoreRef} {label : String} {header slotHeader capacity : Nat}
    (h : BlockFile.open d store label header slotHeader capacity = .ok f) :
    f.layout = ⟨header, capacity⟩ ∧ f.store = store ∧ f.disposed = false := by
  unfold BlockFile.open at h
  split at h
  · cases h
  split at h
  · cases h
    exact ⟨rfl, rfl, rfl⟩
  · dsimp only at h
    split at h
    · cases h
    split at h
    · cases h
    · cases h
      exact ⟨rfl, rfl, rfl⟩

end ColumnDb.Slot.BlockFile

namespace ColumnDb.Tree

open ColumnDb.Slot ColumnDb.Disk IdTree

namespace TreeFile

variable {d : Disk} {t : TreeFile} {H : Heap} {ρ : Nat}

/-- A tree file opens sound and open on any bytes its file part accepts: nothing is cached, and
the root is read from the header or starts empty. No link of a node is looked at. -/
theorem sound_open {store : StoreRef} {label : String} {kind : ValueKind} {capacity : Nat}
    (h : TreeFile.open d store label kind capacity = .ok t) : t.Sound d ∧ t.core.disposed = false := by
  unfold TreeFile.open at h
  cases hc : BlockFile.open d store label treeHeader nodeHeader capacity with
  | error e => simp [hc, bind, Except.bind] at h
  | ok core =>
    simp only [hc, bind, Except.bind, pure, Except.pure, Except.ok.injEq] at h
    subst h
    obtain ⟨hlayout, hstore, hdisposed⟩ := BlockFile.fields_of_open hc
    have hcap : nodeHeader < core.layout.capacity := by
      rw [hlayout]
      exact BlockFile.slotHeader_lt_of_open hc
    refine ⟨{ nodes := fun _ _ hn => by simp at hn
              capacity := Nat.le_of_lt hcap
              root_offset := by dsimp only; split <;> rfl
              root_width := by dsimp only; split <;> rfl
              root_fits := ?_
              root_trueTo := ?_
              decodes := fun _ _ hn => by simp at hn
              allocated := fun _ hn => by simp at hn
              stored := fun _ _ hn => by simp at hn }, hdisposed⟩
    · dsimp only
      split
      · exact Cell.fits_create _ _ _
      · exact Cell.fits_load _ _ _ _
    · dsimp only
      split
      · -- a new root is dirty, so it owes the store nothing
        exact fun hd => by cases hd
      · rw [BlockFile.sid, hstore]
        exact Cell.trueTo_load _ _ _ _

/-- Run on an empty array, an operation that appends `L` answers `L`. -/
theorem Appends.run_empty {op : Array (Nat × Value) → TreeOp (Array (Nat × Value))} {L : List (Nat × Value)}
    (h : Appends d H ρ op L) (ht : t.Sound d) (hH : t.heap d = H) (hρ : t.root.value = ρ) :
    ∃ t', op #[] (d, t) = .ok L.toArray (d, t') := by
  obtain ⟨r, t', hrun, -, -, hr, -, -⟩ := h t #[] ht hH hρ
  have hrL : r = L.toArray := Array.ext' (by simp [hr])
  exact ⟨t', hrL ▸ hrun⟩

/-! ## A link back to the node -/

/-- A node whose left link is its own id and whose right link is empty is walked once per step:
the walk goes left into the same node until its fuel runs out, and never sees that it came
back. -/
theorem walkFor_self_linked {x : Nat} {v : NodeView} (hx : x ≠ 0) (hv : H x = some v)
    (hleft : v.left = x) (hright : v.right = 0) :
    ∀ n, Appends d H ρ (walkFor n x) (List.replicate n (x, v.value))
  | 0 => by
    have hwalk : walkFor 0 x = fun out => Pure.pure out := rfl
    rw [hwalk]
    exact Appends.pure
  | n + 1 => by
    have hrows : List.replicate (n + 1) (x, v.value) =
        List.replicate n (x, v.value) ++ ([(x, v.value)] ++ []) := by
      rw [List.replicate_succ', List.append_nil]
    rw [walkFor_succ hx, hrows]
    refine Appends.links hx hv fun s hs => ?_
    have hsl : s.left.value = x := hs.left.trans hleft
    have hsr : s.right.value = 0 := hs.right.trans hright
    rw [hsl, hsr, walkFor_zero_id]
    exact (walkFor_self_linked hx hv hleft hright n).bind ((emit_appends hx hv).bind Appends.pure)

/-- An open file whose root's left link is the root itself and whose right link is empty: a walk
from the root answers the root once for every step it is given, whatever their number, and
listing the file answers it `linkBound` times. -/
theorem lists_self_linked_root {x : Nat} {v : NodeView} (ht : t.Sound d) (hopen : t.core.disposed = false)
    (hroot : t.rootId = x) (hx : x ≠ 0) (hv : t.heap d x = some v) (hleft : v.left = x) (hright : v.right = 0) :
    (∀ n, ∃ t', walkFor n t.rootId #[] (d, t) = .ok (Array.replicate n (x, v.value)) (d, t')) ∧
      ∃ t', TreeFile.all (d, t) = .ok (List.replicate linkBound (x, v.value)) (d, t') := by
  have hloop := walkFor_self_linked (d := d) (ρ := t.root.value) hx hv hleft hright
  refine ⟨fun n => ?_, ?_⟩
  · rw [hroot]
    exact (hloop n).run_empty ht rfl rfl
  · obtain ⟨r, t', hrun, -, -, hr, -, -⟩ := read_yields ht hopen (by rw [hroot]; exact hloop linkBound)
    exact ⟨t', hr ▸ hrun⟩

/-- The new file of 64-bit integers after adding 1 and flushing, with the left link of node 1
overwritten by 1: bytes 66 to 73 of the store, after the file header's 20 bytes, slot 0's 38 and
the node's parent link. The store opens, a walk from the root answers node 1 once per step, and
listing the file answers it `linkBound` times. -/
theorem all_repeats_self_linked_root :
    TreeFile.open { stores := #[ByteArray.empty] } ⟨0, none⟩ "tree" (.int .i64) 38 =
        .ok ⟨⟨"tree", ⟨0, none⟩, ⟨20, 38⟩, Cell.create 8 4 38, Allocator.create ⟨20, 38⟩, true, false⟩, .int .i64,
          Cell.create 12 8 0, ∅⟩ ∧
      ∃ D, D = (RowEvent.runFile [.add (.int .i64 1) none, .flush] ({ stores := #[ByteArray.empty] },
          ⟨⟨"tree", ⟨0, none⟩, ⟨20, 38⟩, Cell.create 8 4 38, Allocator.create ⟨20, 38⟩, true, false⟩, .int .i64,
            Cell.create 12 8 0, ∅⟩)).2.1.write 0 66 [1, 0, 0, 0, 0, 0, 0, 0] ∧
        ∃ t, TreeFile.open D ⟨0, none⟩ "tree" (.int .i64) 38 = .ok t ∧
          (∀ n, ∃ t', walkFor n t.rootId #[] (D, t) = .ok (Array.replicate n (1, .int .i64 1)) (D, t')) ∧
          ∃ t', TreeFile.all (D, t) = .ok (List.replicate linkBound (1, .int .i64 1)) (D, t') := by
  refine ⟨rfl, _, rfl, ?_⟩
  -- the store opens with root 1, whose node links left to itself
  have hview : (TreeFile.open ((RowEvent.runFile [.add (.int .i64 1) none, .flush] ({ stores := #[ByteArray.empty] },
          ⟨⟨"tree", ⟨0, none⟩, ⟨20, 38⟩, Cell.create 8 4 38, Allocator.create ⟨20, 38⟩, true, false⟩, .int .i64,
            Cell.create 12 8 0, ∅⟩)).2.1.write 0 66 [1, 0, 0, 0, 0, 0, 0, 0]) ⟨0, none⟩ "tree" (.int .i64) 38).map
        (fun t => (t.rootId, t.heap ((RowEvent.runFile [.add (.int .i64 1) none, .flush] ({ stores := #[ByteArray.empty] },
          ⟨⟨"tree", ⟨0, none⟩, ⟨20, 38⟩, Cell.create 8 4 38, Allocator.create ⟨20, 38⟩, true, false⟩, .int .i64,
            Cell.create 12 8 0, ∅⟩)).2.1.write 0 66 [1, 0, 0, 0, 0, 0, 0, 0]) 1)) =
      .ok (1, some ⟨0, 1, 0, 0, 0, .int .i64 1⟩) := by
    decide +kernel
  cases hopen : TreeFile.open ((RowEvent.runFile [.add (.int .i64 1) none, .flush] ({ stores := #[ByteArray.empty] },
      ⟨⟨"tree", ⟨0, none⟩, ⟨20, 38⟩, Cell.create 8 4 38, Allocator.create ⟨20, 38⟩, true, false⟩, .int .i64,
        Cell.create 12 8 0, ∅⟩)).2.1.write 0 66 [1, 0, 0, 0, 0, 0, 0, 0]) ⟨0, none⟩ "tree" (.int .i64) 38 with
  | error e => simp [hopen, Except.map] at hview
  | ok t =>
    simp only [hopen, Except.map, Except.ok.injEq, Prod.mk.injEq] at hview
    obtain ⟨ht, hdisposed⟩ := sound_open hopen
    exact ⟨t, rfl, lists_self_linked_root ht hdisposed hview.1 one_ne_zero hview.2 rfl rfl⟩

/-! ## Files the program writes -/

/-- A file holding rows is walked, and searched with an operand of its kind, within 91 levels:
every fuel of at least 91 answers its rows and the rows whose value the comparison accepts. -/
theorem Rows.walks_within {R : List (Nat × Value)} (h : t.Rows d R) {fuel : Nat} (hfuel : 91 ≤ fuel) :
    (∃ t', walkFor fuel t.rootId #[] (d, t) = .ok R.toArray (d, t')) ∧
      ∀ (cmp : Comparison) (o : Value), o.kind = t.kind →
        ∃ t', searchFor cmp o fuel t.rootId #[] (d, t) =
          .ok (R.filter fun row => cmp.accepts (row.2.compare o)).toArray (d, t') := by
  obtain ⟨T, val, hs, hR⟩ := h.shape
  -- the tree's ids are distinct 64-bit numbers, so it is at most 91 levels high
  have hheight : T.height ≤ fuel := (hs.balanced.height_le_91 hs.ids.length_lt).trans hfuel
  have hroot : t.rootId = T.rootId := hs.root
  rw [hroot]
  refine ⟨?_, fun cmp o ho => ?_⟩
  · rw [hR]
    exact (walkFor_appends T hs.rep hheight).run_empty h.sound rfl rfl
  · have hkind : ∀ k ∈ T.toList, (val k).kind = o.kind := fun k hk => (hs.kinds k hk).trans ho.symm
    rw [hR, ← rowsOf_filter val T.toList fun v => cmp.accepts (v.compare o)]
    exact (searchFor_appends cmp o T hs.rep hs.ascending hkind hheight).run_empty h.sound rfl rfl

end TreeFile

namespace RowEvent

section New

variable {d : Disk} {store : StoreRef} {label : String} {kind : ValueKind} {capacity : Nat} {t : TreeFile}

/-- On every file reached from a file opened on an empty store by an allowed run of events,
reopening included, a walk from the root and a range search with an operand of the file's kind
reach the bottom within 91 levels: with any fuel of at least 91 they answer the rows the list
model holds after the run, and the rows whose value the comparison accepts. -/
theorem runFile_walks_within_height (hcap : capacity < Nat.pow 256 4) (hs : store.store < d.stores.size)
    (hempty : d.size store.store = 0) (hopen : TreeFile.open d store label kind capacity = .ok t)
    (es : List RowEvent)
    (hes : AllowedRun kind (NodeSlot.payloadCapacity t.core.layout) ⟨t.core.allocator.pool, []⟩ es)
    {fuel : Nat} (hfuel : 91 ≤ fuel) :
    (∃ t', TreeFile.walkFor fuel (runFile es (d, t)).2.2.rootId #[] (runFile es (d, t)).2 =
        .ok (runModel (NodeSlot.payloadCapacity t.core.layout) es ⟨t.core.allocator.pool, []⟩).2.rows.toArray
          ((runFile es (d, t)).2.1, t')) ∧
      ∀ (cmp : Comparison) (o : Value), o.kind = kind →
        ∃ t', TreeFile.searchFor cmp o fuel (runFile es (d, t)).2.2.rootId #[] (runFile es (d, t)).2 =
          .ok ((runModel (NodeSlot.payloadCapacity t.core.layout) es ⟨t.core.allocator.pool, []⟩).2.rows.filter
            fun row => cmp.accepts (row.2.compare o)).toArray ((runFile es (d, t)).2.1, t') := by
  obtain ⟨hrows, hkind⟩ := TreeFile.rows_open_new hcap hs hempty hopen
  obtain ⟨-, hrows', -, hsame⟩ := runFile_rows es hrows (by rw [hkind]; exact hes)
  -- the run keeps the file's kind, so an operand of `kind` is one of the file's kind
  have hkind' : (runFile es (d, t)).2.2.kind = kind := hsame.kind.trans hkind
  obtain ⟨hwalk, hsearch⟩ := hrows'.walks_within hfuel
  exact ⟨hwalk, fun cmp o ho => hsearch cmp o (ho.trans hkind'.symm)⟩

/-- The new file of 64-bit integers after adding 3, 1 and 2, reopening and deleting the second
row, walked and searched with 91 steps. -/
theorem runFile_walks_within_height_after_reopen :
    let d : Disk := { stores := #[ByteArray.empty] }
    let t : TreeFile := ⟨⟨"t", ⟨0, none⟩, ⟨20, 64⟩, Cell.create 8 4 64, Allocator.create ⟨20, 64⟩, true, false⟩,
      .int .i64, Cell.create 12 8 0, ∅⟩
    let es : List RowEvent := [.add (.int .i64 3) none, .add (.int .i64 1) none, .add (.int .i64 2) none, .reopen,
      .delete 2]
    let r := runFile es (d, t)
    let rows := (runModel 34 es ⟨(Allocator.create ⟨20, 64⟩).pool, []⟩).2.rows
    TreeFile.open d ⟨0, none⟩ "t" (.int .i64) 64 = .ok t ∧
      AllowedRun (.int .i64) 34 ⟨(Allocator.create ⟨20, 64⟩).pool, []⟩ es ∧ 91 ≤ 91 ∧
      (∃ t', TreeFile.walkFor 91 r.2.2.rootId #[] r.2 = .ok rows.toArray (r.2.1, t')) ∧
      ∀ (cmp : Comparison) (o : Value), o.kind = .int .i64 →
        ∃ t', TreeFile.searchFor cmp o 91 r.2.2.rootId #[] r.2 =
          .ok (rows.filter fun row => cmp.accepts (row.2.compare o)).toArray (r.2.1, t') :=
  ⟨rfl, by decide, le_rfl, @runFile_walks_within_height _ ⟨0, none⟩ "t" (.int .i64) 64 _ (by decide) (by decide)
    (by decide) rfl _ (by decide) 91 le_rfl⟩

end New

end RowEvent

end ColumnDb.Tree
