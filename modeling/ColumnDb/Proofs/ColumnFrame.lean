import Mathlib
import ColumnDb.Proofs.FileReopen

/-!
# Files write only their own stores

A tree file writes only its store when it flushes or is disposed of, as the data and blob files do
(`TreeFile.writesIn_flush`, `writesIn_dispose`), and what it holds is read from that store alone:
a tree file holding rows still holds them, and its store still opens as before, whatever is
written to another store (`TreeFile.Rows.apart`, `TreeFile.open_apart`). A text file writes its
two stores, its blobs' and then its pointers'; it stands for its model across writes to any other
store (`TextEvent.Tracks.across`).
-/

set_option autoImplicit false

namespace ColumnDb.Slot

open ColumnDb.Disk

theorem NodeSlot.load_apart {d d' : Disk} {s t : Nat} (hw : Disk.OnlyIn d d' s) (ht : t ≠ s) :
    NodeSlot.load d' t = NodeSlot.load d t := by
  funext l id
  unfold NodeSlot.load
  rw [hw.read_eq ht]

end ColumnDb.Slot

namespace ColumnDb.Tree.TreeFile

open ColumnDb.Slot ColumnDb.Disk ColumnDb.Slot.FileOp

/-! ## A tree file writes its own store -/

theorem writesIn_onCore {α : Type} {m : FileOp BlockFile α} (hm : WritesIn BlockFile.sid m) :
    WritesIn (fun t : TreeFile => t.core.sid) (onCore m) :=
  WritesIn.zoom hm fun _ _ => rfl

/-- A flush writes the root cell and the cached nodes, all to the file's store. -/
theorem writesIn_flush : WritesIn (fun t : TreeFile => t.core.sid) TreeFile.flush := by
  refine WritesIn.bind (writesIn_onCore BlockFile.writesIn_ensureOpen) fun _ =>
    WritesIn.bind (WritesIn.write fun d t => ⟨?_, rfl⟩) fun _ => writesIn_onCore BlockFile.writesIn_flush
  show Disk.OnlyIn d (t.nodes.foldl (fun d _ n => (n.slot.flush d t.core.sid).2) (t.root.flush d t.core.sid).2)
    t.core.sid
  rw [Std.TreeMap.foldl_eq_foldl_toList]
  exact (Cell.onlyIn_flush _ _ _).trans
    (Disk.onlyIn_foldl _ (fun d (r : Nat × Node) => NodeSlot.onlyIn_flush r.2.slot d _) _ _)

theorem writesIn_dispose : WritesIn (fun t : TreeFile => t.core.sid) TreeFile.dispose :=
  WritesIn.bind WritesIn.self fun _ =>
    WritesIn.ite (WritesIn.pure _) (WritesIn.bind writesIn_flush fun _ => writesIn_onCore BlockFile.writesIn_dispose)

/-! ## What a tree file holds is read from its own store -/

variable {d d' : Disk} {s : Nat} {t : TreeFile} {R : List (Nat × Value)}

theorem open_apart (hw : Disk.OnlyIn d d' s) {store : StoreRef} (ht : store.store ≠ s) (label : String)
    (kind : ValueKind) (capacity : Nat) :
    TreeFile.open d' store label kind capacity = TreeFile.open d store label kind capacity := by
  unfold TreeFile.open
  rw [BlockFile.open_apart hw ht, Cell.load_apart hw ht]

theorem heap_apart (hw : Disk.OnlyIn d d' s) (hs : s ≠ t.core.sid) : t.heap d' = t.heap d := by
  have hlook : t.look d' = t.look d := by
    funext id
    unfold look
    rw [NodeSlot.load_apart hw (Ne.symm hs)]
  funext id
  have hp : t.present d' id ↔ t.present d id := by simp only [present, hw.size_eq (Ne.symm hs)]
  unfold heap
  by_cases h : t.present d id
  · rw [if_pos (hp.mpr h), if_pos h, hlook]
  · rw [if_neg (mt hp.mp h), if_neg h]

theorem Sound.apart (h : t.Sound d) (hw : Disk.OnlyIn d d' s) (hs : s ≠ t.core.sid) : t.Sound d' := by
  have hw' := hw.confined
  refine { h with
    nodes := fun id n hn => (h.nodes id n hn).within hw' (fun i hi hr => hs (hr.symm.trans hi.1)) h.capacity
    root_trueTo := h.root_trueTo.within hw' fun i _ _ hi => hs hi.symm
    stored := fun id n hn => by rw [hw.size_eq (Ne.symm hs)]; exact h.stored id n hn }

/-- A tree file holding rows still holds them whatever is written to another store. -/
theorem Rows.apart (h : t.Rows d R) (hw : Disk.OnlyIn d d' s) (hs : s ≠ t.core.sid) : t.Rows d' R := by
  obtain ⟨T, val, hshape, hR⟩ := h.shape
  exact ⟨h.sound.apart hw hs, h.core.apart hw hs, h.opened, h.layout, T, val,
    { hshape with rep := by rw [heap_apart hw hs]; exact hshape.rep }, hR⟩

end ColumnDb.Tree.TreeFile

namespace ColumnDb.Tree.TreeCall

open ColumnDb.Disk

theorem Tracks.across {k : ValueKind} {cap : Nat} {d d' : Disk} {s : Nat} {t : TreeFile} {m : RowModel}
    (h : Tracks k cap (d, t) m) (hw : Disk.OnlyIn d d' s) (hs : s ≠ t.core.sid) : Tracks k cap (d', t) m :=
  ⟨h.1.apart hw hs, h.2⟩

end ColumnDb.Tree.TreeCall

namespace ColumnDb.Blob

open ColumnDb.Slot ColumnDb.Disk ColumnDb.Slot.FileOp ColumnDb.Data

namespace TextEvent

variable {p : Nat} {d d' : Disk} {s : Nat} {t : TextFile} {m : TextModel}

/-- A text file stands for its model whatever is written to a store other than its two. -/
theorem Tracks.across (h : Tracks p (d, t) m) (hw : Disk.OnlyIn d d' s) (hp : s ≠ t.pointers.core.sid)
    (hb : s ≠ t.blobs.core.sid) : Tracks p (d', t) m :=
  ⟨⟨h.pointers.1.apart hw hp, h.pointers.2⟩, ⟨h.blobs.1.apart hw hb, h.blobs.2⟩, h.apart, h.linked⟩

end TextEvent

end ColumnDb.Blob
