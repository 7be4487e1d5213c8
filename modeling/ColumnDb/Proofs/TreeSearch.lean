import Mathlib
import ColumnDb.Proofs.TreeEdit
import ColumnDb.Proofs.TreeFlush
import ColumnDb.Proofs.ValueOrder

/-!
# Walks and range searches of a tree file

A walk (`walkFor`) and a range search (`searchFor`) only read nodes: from a
sound file they leave the heap and the root as they were and append rows to
the array they are given. `Appends d H ρ op L` says so of an operation: from
any sound file with heap `H` and root `ρ` it appends the rows `L`.

When the heap holds the tree `T` (`Rep`) and the values along `T`'s in-order
list never go down, the walk appends every node with its value in that order
(`walkFor_appends`), and the search appends exactly the nodes whose value
satisfies the comparison, in the same order (`searchFor_appends`). The
search's pruning is sound because `>` and `>=` accept upward along values of
one kind and `<` and `<=` downward (`Comparison.accepts_of_le`,
`Comparison.accepts_of_ge`). Both run on the fuel `linkBound`, one step per 64-bit id,
which no held tree's size reaches (`Rep.length_lt_linkBound`), so `TreeFile.all` and
`TreeFile.range` answer all the tree's rows and the matching ones
(`all_yields`, `range_yields`).
-/

set_option autoImplicit false

namespace ColumnDb.Comparison

variable {cmp : Comparison} {a b o : Value}

/-- `>` and `>=` accept every value not below one they accept. -/
theorem accepts_of_le (hc : cmp = .gt ∨ cmp = .ge) (hab : a.kind = b.kind) (hbo : b.kind = o.kind)
    (h₁ : a.compare b ≠ .gt) (h₂ : cmp.accepts (a.compare o)) : cmp.accepts (b.compare o) := by
  rcases hc with rfl | rfl
  · simp only [accepts, beq_iff_eq] at h₂ ⊢
    exact Value.compare_gt_of_le_of_gt hab hbo h₁ h₂
  · simp only [accepts, bne_iff_ne, ne_eq] at h₂ ⊢
    exact Value.compare_ne_lt_of_le hab hbo h₁ h₂

/-- `<` and `<=` accept every value not above one they accept. -/
theorem accepts_of_ge (hc : cmp = .lt ∨ cmp = .le) (hab : a.kind = b.kind) (hbo : b.kind = o.kind)
    (h₁ : a.compare b ≠ .gt) (h₂ : cmp.accepts (b.compare o)) : cmp.accepts (a.compare o) := by
  rcases hc with rfl | rfl
  · simp only [accepts, beq_iff_eq] at h₂ ⊢
    exact Value.compare_lt_of_le_of_lt hab hbo h₁ h₂
  · simp only [accepts, bne_iff_ne, ne_eq] at h₂ ⊢
    exact Value.compare_le_trans hab hbo h₁ h₂

/-- The rows `>`, `==` and `<` accept against an operand, put together, are all the rows once. -/
theorem filter_gt_eq_lt_perm (o : Value) : ∀ R : List (Nat × Value),
    (R.filter (fun row => gt.accepts (row.2.compare o)) ++ R.filter (fun row => eq.accepts (row.2.compare o)) ++
      R.filter (fun row => lt.accepts (row.2.compare o))).Perm R
  | [] => .nil
  | row :: R => by
    have ih := filter_gt_eq_lt_perm o R
    rw [List.append_assoc] at ih ⊢
    -- the row goes to the one list whose comparison accepts it
    cases h : row.2.compare o <;> simp only [List.filter_cons, h, accepts, beq_self_eq_true, reduceCtorEq,
      beq_iff_eq, if_true, if_false, List.cons_append] at ih ⊢
    · exact (List.perm_middle.append_left _).trans (List.perm_middle.trans (ih.cons row))
    · exact List.perm_middle.trans (ih.cons row)
    · exact ih.cons row

end ColumnDb.Comparison

namespace ColumnDb.Tree

open ColumnDb.Slot ColumnDb.Disk IdTree

/-- Ids with their values. -/
def rowsOf (val : Nat → Value) (L : List Nat) : List (Nat × Value) := L.map fun k => (k, val k)

@[simp] theorem rowsOf_nil (val : Nat → Value) : rowsOf val [] = [] := rfl

@[simp] theorem rowsOf_append (val : Nat → Value) (L₁ L₂ : List Nat) :
    rowsOf val (L₁ ++ L₂) = rowsOf val L₁ ++ rowsOf val L₂ :=
  List.map_append

theorem rowsOf_around (val : Nat → Value) (L₁ : List Nat) (x : Nat) (L₂ : List Nat) :
    rowsOf val (L₁ ++ x :: L₂) = rowsOf val L₁ ++ ([(x, val x)] ++ rowsOf val L₂) := by
  simp [rowsOf]

theorem rowsOf_filter (val : Nat → Value) (L : List Nat) (p : Value → Bool) :
    rowsOf val (L.filter fun k => p (val k)) = (rowsOf val L).filter fun row => p row.2 := by
  rw [rowsOf, rowsOf, List.filter_map]
  rfl

/-- Values that never go down along a list of ids. -/
def Ascending (val : Nat → Value) (L : List Nat) : Prop := L.Pairwise fun a b => (val a).compare (val b) ≠ .gt

theorem Ascending.node {val : Nat → Value} {l r : IdTree} {x : Nat} (h : Ascending val (node l x r).toList) :
    Ascending val l.toList ∧ Ascending val r.toList ∧ (∀ a ∈ l.toList, (val a).compare (val x) ≠ .gt) ∧
      ∀ b ∈ r.toList, (val x).compare (val b) ≠ .gt := by
  simp only [Ascending, toList_node, List.pairwise_append, List.pairwise_cons, List.mem_cons] at h
  exact ⟨h.1, h.2.1.2, fun a ha => h.2.2 a ha x (.inl rfl), h.2.1.1⟩

theorem height_le_length : ∀ T : IdTree, T.height ≤ T.toList.length
  | nil => le_rfl
  | node l _ r => by
    have hl := height_le_length l
    have hr := height_le_length r
    simp only [height_node, toList_node, List.length_append, List.length_cons]
    omega

namespace TreeFile

/-- From any sound file with heap `H` and root `ρ`, `op` appends the rows `L` to the array it is
given and leaves heap and root as they were. -/
def Appends (d : Disk) (H : Heap) (ρ : Nat) (op : Array (Nat × Value) → TreeOp (Array (Nat × Value)))
    (L : List (Nat × Value)) : Prop :=
  ∀ (t : TreeFile) (out : Array (Nat × Value)), t.Sound d → t.heap d = H → t.root.value = ρ →
    Yields (op out) d t fun r ρ' H' => r.toList = out.toList ++ L ∧ ρ' = ρ ∧ H' = H

variable {d : Disk} {H : Heap} {ρ : Nat}

theorem Appends.pure : Appends d H ρ (fun out => Pure.pure out) [] :=
  fun _ out ht hH hρ => Yields.pure ht ⟨by rw [List.append_nil], hρ, hH⟩

theorem Appends.bind {f g : Array (Nat × Value) → TreeOp (Array (Nat × Value))} {L₁ L₂ : List (Nat × Value)}
    (hf : Appends d H ρ f L₁) (hg : Appends d H ρ g L₂) : Appends d H ρ (fun out => f out >>= g) (L₁ ++ L₂) := by
  intro t out ht hH hρ
  refine (hf t out ht hH hρ).bind fun out₁ t₁ _ hs₁ hpost => ?_
  obtain ⟨hout₁, hρ₁, hH₁⟩ := hpost
  refine (hg t₁ out₁ hs₁ hH₁ hρ₁).mono fun r ρ' H' hpost => ?_
  obtain ⟨hr, hρ', hH'⟩ := hpost
  exact ⟨by rw [hr, hout₁, List.append_assoc], hρ', hH'⟩

/-- Emitting a node appends its id and value. -/
theorem emit_appends {x : Nat} {v : NodeView} (hx : x ≠ 0) (hv : H x = some v) :
    Appends d H ρ (emit x) [(x, v.value)] := by
  intro t out ht hH hρ
  refine (node_yields ht hx (hH ▸ hv)).bind fun n t₁ _ hs₁ hpost => ?_
  obtain ⟨hn, hρ₁, hH₁⟩ := hpost
  refine Yields.pure hs₁ ⟨?_, hρ₁.trans hρ, hH₁.trans hH⟩
  rw [Array.toList_push, ← hn]
  rfl

/-- Reading a node's links first changes nothing of what follows. -/
theorem Appends.links {x : Nat} {v : NodeView} {k : NodeSlot → Array (Nat × Value) → TreeOp (Array (Nat × Value))}
    {L : List (Nat × Value)} (hx : x ≠ 0) (hv : H x = some v) (hk : ∀ s, Shows s v → Appends d H ρ (k s) L) :
    Appends d H ρ (fun out => links x >>= fun s => k s out) L := by
  intro t out ht hH hρ
  refine (links_yields ht hx (hH ▸ hv)).bind fun s t₁ _ hs₁ hpost => ?_
  obtain ⟨hsv, hρ₁, hH₁⟩ := hpost
  exact hk s hsv t₁ out hs₁ (hH₁.trans hH) (hρ₁.trans hρ)

theorem walkFor_zero_id (fuel : Nat) : walkFor fuel 0 = fun out => Pure.pure out := by
  funext out
  cases fuel <;> rfl

/-- Below a node, a walk reads its links, walks its left side, emits it and walks its right side. -/
theorem walkFor_succ {x : Nat} (hx : x ≠ 0) (fuel : Nat) :
    walkFor (fuel + 1) x = fun out => links x >>= fun s =>
      walkFor fuel s.left.value out >>= fun out => emit x out >>= walkFor fuel s.right.value := by
  funext out
  simp only [walkFor, beq_iff_eq, hx, if_false]

theorem searchFor_zero_id (cmp : Comparison) (o : Value) (fuel : Nat) :
    searchFor cmp o fuel 0 = fun out => Pure.pure out := by
  funext out
  cases fuel <;> rfl

/-- A walk below the root of a held tree appends its nodes in order, given fuel for its height. -/
theorem walkFor_appends {val : Nat → Value} : ∀ (T : IdTree) {p fuel : Nat}, Rep H val p T → T.height ≤ fuel →
    Appends d H ρ (walkFor fuel T.rootId) (rowsOf val T.toList)
  | .nil, _, fuel, _, _ => by
    rw [rootId_nil, walkFor_zero_id]
    exact Appends.pure
  | .node l x r, _, fuel, hrep, hh => by
    obtain ⟨hx0, hHx, hl, hr⟩ := hrep
    obtain ⟨f, rfl⟩ : ∃ f, fuel = f + 1 := ⟨fuel - 1, by simp only [height_node] at hh; omega⟩
    simp only [height_node] at hh
    rw [rootId_node, walkFor_succ hx0, toList_node, rowsOf_around]
    refine Appends.links hx0 hHx fun s hs => ?_
    have hsl : s.left.value = l.rootId := hs.left
    have hsr : s.right.value = r.rootId := hs.right
    rw [hsl, hsr]
    exact (walkFor_appends l hl (by omega)).bind ((emit_appends hx0 hHx).bind (walkFor_appends r hr (by omega)))

/-- A range search below the root of a held tree whose values ascend appends, in order, the nodes
whose value satisfies the comparison against the operand, given fuel for the tree's height. -/
theorem searchFor_appends {val : Nat → Value} (cmp : Comparison) (o : Value) :
    ∀ (T : IdTree) {p fuel : Nat}, Rep H val p T → Ascending val T.toList →
      (∀ k ∈ T.toList, (val k).kind = o.kind) → T.height ≤ fuel →
      Appends d H ρ (searchFor cmp o fuel T.rootId)
        (rowsOf val (T.toList.filter fun k => cmp.accepts ((val k).compare o)))
  | .nil, _, fuel, _, _, _, _ => by
    rw [rootId_nil, searchFor_zero_id]
    exact Appends.pure
  | .node l x r, _, fuel, hrep, hasc, hkind, hh => by
    obtain ⟨hx0, hHx, hl, hr⟩ := hrep
    obtain ⟨f, rfl⟩ : ∃ f, fuel = f + 1 := ⟨fuel - 1, by simp only [height_node] at hh; omega⟩
    simp only [height_node] at hh
    obtain ⟨hascl, hascr, hlx, hxr⟩ := hasc.node
    have hkx : (val x).kind = o.kind := hkind x (by simp)
    have hkl : ∀ k ∈ l.toList, (val k).kind = o.kind := fun k hk => hkind k (by simp [hk])
    have hkr : ∀ k ∈ r.toList, (val k).kind = o.kind := fun k hk => hkind k (by simp [hk])
    -- what the steps below the node append
    have hsl := searchFor_appends cmp o l hl hascl hkl (show l.height ≤ f by omega)
    have hsr := searchFor_appends cmp o r hr hascr hkr (show r.height ≤ f by omega)
    have hwl := walkFor_appends (d := d) (ρ := ρ) l hl (show l.height ≤ f by omega)
    have hwr := walkFor_appends (d := d) (ρ := ρ) r hr (show r.height ≤ f by omega)
    have hem := emit_appends (d := d) (ρ := ρ) hx0 hHx
    have hsplit : ((IdTree.node l x r).toList.filter fun k => cmp.accepts ((val k).compare o)) =
        (l.toList.filter fun k => cmp.accepts ((val k).compare o)) ++
          if cmp.accepts ((val x).compare o) then x :: r.toList.filter fun k => cmp.accepts ((val k).compare o)
          else r.toList.filter fun k => cmp.accepts ((val k).compare o) := by
      simp only [toList_node, List.filter_append, List.filter_cons]
    -- `>` and `>=`: past a match all match, before a failure all fail
    have hupAll : cmp = .gt ∨ cmp = .ge → cmp.accepts ((val x).compare o) →
        (r.toList.filter fun k => cmp.accepts ((val k).compare o)) = r.toList := fun hc hacc =>
      List.filter_eq_self.mpr fun b hb =>
        Comparison.accepts_of_le hc (hkx.trans (hkr b hb).symm) (hkr b hb) (hxr b hb) hacc
    have hupNone : cmp = .gt ∨ cmp = .ge → ¬ cmp.accepts ((val x).compare o) →
        (l.toList.filter fun k => cmp.accepts ((val k).compare o)) = [] := fun hc hacc =>
      List.filter_eq_nil_iff.mpr fun a ha hpa =>
        hacc (Comparison.accepts_of_le hc ((hkl a ha).trans hkx.symm) hkx (hlx a ha) hpa)
    -- `<` and `<=`: before a match all match, past a failure all fail
    have hdownAll : cmp = .lt ∨ cmp = .le → cmp.accepts ((val x).compare o) →
        (l.toList.filter fun k => cmp.accepts ((val k).compare o)) = l.toList := fun hc hacc =>
      List.filter_eq_self.mpr fun a ha =>
        Comparison.accepts_of_ge hc ((hkl a ha).trans hkx.symm) hkx (hlx a ha) hacc
    have hdownNone : cmp = .lt ∨ cmp = .le → ¬ cmp.accepts ((val x).compare o) →
        (r.toList.filter fun k => cmp.accepts ((val k).compare o)) = [] := fun hc hacc =>
      List.filter_eq_nil_iff.mpr fun b hb hpb =>
        hacc (Comparison.accepts_of_ge hc (hkx.trans (hkr b hb).symm) (hkr b hb) (hxr b hb) hpb)
    intro t out ht hH hρ
    rw [rootId_node, searchFor, if_neg (by simpa using hx0)]
    refine (links_yields ht hx0 (hH ▸ hHx)).bind fun s t₁ _ hs₁ hpost => ?_
    obtain ⟨hsv, hρ₁, hH₁⟩ := hpost
    refine (node_yields hs₁ hx0 (hH₁.trans hH ▸ hHx)).bind fun n t₂ _ hs₂ hpost => ?_
    obtain ⟨hnv, hρ₂, hH₂⟩ := hpost
    have hheap : t₂.heap d = H := hH₂.trans (hH₁.trans hH)
    have hroot : t₂.root.value = ρ := hρ₂.trans (hρ₁.trans hρ)
    have hsl' : s.left.value = l.rootId := hsv.left
    have hsr' : s.right.value = r.rootId := hsv.right
    have hnx : n.value = val x := congrArg NodeView.value hnv
    simp only [hsl', hsr', hnx]
    cases cmp
    case gt | ge =>
      dsimp only
      split_ifs with hacc
      · rw [hsplit, if_pos hacc, hupAll (by decide) hacc, rowsOf_around]
        exact (hsl.bind (hem.bind hwr)) t₂ out hs₂ hheap hroot
      · rw [hsplit, if_neg hacc, hupNone (by decide) hacc, List.nil_append]
        exact hsr t₂ out hs₂ hheap hroot
    case lt | le =>
      dsimp only
      split_ifs with hacc
      · rw [hsplit, if_pos hacc, hdownAll (by decide) hacc, rowsOf_around]
        exact (hwl.bind (hem.bind hsr)) t₂ out hs₂ hheap hroot
      · rw [hsplit, if_neg hacc, hdownNone (by decide) hacc, List.append_nil]
        exact hsl t₂ out hs₂ hheap hroot
    case eq =>
      -- `==`: the side away from the operand holds no match
      cases hxo : (val x).compare o <;> dsimp only
      case lt =>
        have hnone : (l.toList.filter fun k => Comparison.eq.accepts ((val k).compare o)) = [] :=
          List.filter_eq_nil_iff.mpr fun a ha => by
            simp [Comparison.accepts, Value.compare_lt_of_le_of_lt ((hkl a ha).trans hkx.symm) hkx (hlx a ha) hxo]
        rw [hsplit, hxo, if_neg (by decide), hnone, List.nil_append]
        exact hsr t₂ out hs₂ hheap hroot
      case eq =>
        rw [hsplit, hxo, if_pos (by decide), rowsOf_around]
        exact (hsl.bind (hem.bind hsr)) t₂ out hs₂ hheap hroot
      case gt =>
        have hnone : (r.toList.filter fun k => Comparison.eq.accepts ((val k).compare o)) = [] :=
          List.filter_eq_nil_iff.mpr fun b hb => by
            simp [Comparison.accepts,
              Value.compare_gt_of_le_of_gt (hkx.trans (hkr b hb).symm) (hkr b hb) (hxr b hb) hxo]
        rw [hsplit, hxo, if_neg (by decide), hnone, List.append_nil]
        exact hsl t₂ out hs₂ hheap hroot

/-! ## Listing and searching a whole file -/

variable {t : TreeFile} {val : Nat → Value} {T : IdTree}

/-- The links a sound file's heap shows fit a link's 64 bits. -/
theorem links_lt_of_heap (ht : t.Sound d) {x : Nat} {v : NodeView} (h : t.heap d x = some v) :
    v.left < Nat.pow 256 8 ∧ v.right < Nat.pow 256 8 := by
  obtain ⟨-, n, hn, rfl⟩ := exists_look_of_heap h
  have hs := look_sound ht hn
  have hl := hs.left_fits
  have hr := hs.right_fits
  unfold Cell.Fits at hl hr
  rw [hs.left_width] at hl
  rw [hs.right_width] at hr
  exact ⟨hl, hr⟩

/-- Every id of a held tree is one of its nodes, and no node is 0. -/
theorem Rep.ne_zero {H : Heap} : ∀ {p : Nat} {T : IdTree}, Rep H val p T → ∀ k ∈ T.toList, k ≠ 0
  | _, .nil, _, k, hk => absurd hk List.not_mem_nil
  | _, .node l x r, ⟨hx, _, hl, hr⟩, k, hk => by
    simp only [toList_node, List.mem_append, List.mem_cons] at hk
    rcases hk with hk | rfl | hk
    · exact Rep.ne_zero hl k hk
    · exact hx
    · exact Rep.ne_zero hr k hk

/-- Below a root that fits a link, every id of a tree a sound file holds fits one: each is the
root or a link of its parent. -/
theorem Rep.lt_of_root (ht : t.Sound d) : ∀ {p : Nat} {T : IdTree}, Rep (t.heap d) val p T →
    T.rootId < Nat.pow 256 8 → ∀ k ∈ T.toList, k < Nat.pow 256 8
  | _, .nil, _, _, k, hk => absurd hk List.not_mem_nil
  | _, .node l x r, ⟨_, hv, hl, hr⟩, hx, k, hk => by
    obtain ⟨hleft, hright⟩ := links_lt_of_heap ht hv
    simp only [toList_node, List.mem_append, List.mem_cons] at hk
    rcases hk with hk | rfl | hk
    · exact Rep.lt_of_root ht hl hleft k hk
    · exact hx
    · exact Rep.lt_of_root ht hr hright k hk

/-- A held tree below a root that fits a link has distinct ids other than 0 that fit links, so
fewer nodes than `linkBound` allows for. -/
theorem Rep.length_lt_linkBound {p : Nat} (ht : t.Sound d) (hrep : Rep (t.heap d) val p T)
    (hroot : T.rootId < Nat.pow 256 8) (hnd : T.toList.Nodup) : T.toList.length < linkBound := by
  have hlt := Rep.lt_of_root ht hrep hroot
  have hnd₀ : (0 :: T.toList).Nodup := List.nodup_cons.mpr ⟨fun h0 => Rep.ne_zero hrep 0 h0 rfl, hnd⟩
  have hlen := length_le_of_nodup_lt (n := Nat.pow 256 8) hnd₀ fun k hk => by
    rcases List.mem_cons.mp hk with rfl | hk
    · decide
    · exact hlt k hk
  simp only [List.length_cons] at hlen
  unfold linkBound
  omega

theorem ensureOpen_yields (ht : t.Sound d) (hopen : t.core.disposed = false) :
    Yields (onCore BlockFile.ensureOpen) d t fun _ ρ H => ρ = t.root.value ∧ H = t.heap d :=
  ⟨(), t, ensureOpen_runs hopen, Keeps.refl t, ht, rfl, rfl⟩

/-- A read that runs an appending walk from the root of an open file, on the fuel `linkBound`,
answers what the walk appends. -/
theorem read_yields {op : Nat → Nat → Array (Nat × Value) → TreeOp (Array (Nat × Value))}
    {L : List (Nat × Value)} (ht : t.Sound d) (hopen : t.core.disposed = false)
    (happ : Appends d (t.heap d) t.root.value (op linkBound t.rootId) L) :
    Yields (do
        onCore BlockFile.ensureOpen
        let t ← FileOp.self
        return (← op linkBound t.rootId #[]).toList) d t
      fun rows ρ H => rows = L ∧ ρ = t.root.value ∧ H = t.heap d := by
  refine (ensureOpen_yields ht hopen).bind fun _ t₁ _ hs₁ hpost => ?_
  obtain ⟨hρ₁, hH₁⟩ := hpost
  refine Yields.self_bind ?_
  rw [show t₁.rootId = t.rootId from hρ₁]
  refine (happ t₁ #[] hs₁ hH₁ hρ₁).bind fun r t₂ _ hs₂ hpost => ?_
  obtain ⟨hr, hρ₂, hH₂⟩ := hpost
  exact Yields.pure hs₂ ⟨by rw [hr, Array.toList_empty, List.nil_append], hρ₂, hH₂⟩

/-- A read that runs an appending walk from the root of an open file that holds the tree `T`,
on the fuel `linkBound`, answers what the walk appends. -/
theorem walk_yields {op : Nat → Nat → Array (Nat × Value) → TreeOp (Array (Nat × Value))}
    {L : List (Nat × Value)} (ht : t.Sound d) (hopen : t.core.disposed = false)
    (hrep : Rep (t.heap d) val 0 T) (hroot : t.root.value = T.rootId) (hnd : T.toList.Nodup)
    (happ : ∀ fuel, T.height ≤ fuel → Appends d (t.heap d) t.root.value (op fuel T.rootId) L) :
    Yields (do
        onCore BlockFile.ensureOpen
        let t ← FileOp.self
        return (← op linkBound t.rootId #[]).toList) d t
      fun rows ρ H => rows = L ∧ ρ = t.root.value ∧ H = t.heap d := by
  refine read_yields ht hopen ?_
  -- the walk's fuel covers the tree: it has fewer nodes than `linkBound`
  have hfuel : T.height ≤ linkBound := by
    have hroot₁ : T.rootId < Nat.pow 256 8 := by
      have hfits := ht.root_fits
      unfold Cell.Fits at hfits
      rwa [ht.root_width, hroot] at hfits
    have := Rep.length_lt_linkBound ht hrep hroot₁ hnd
    have := height_le_length T
    omega
  rw [show t.rootId = T.rootId from hroot]
  exact happ _ hfuel

/-- Listing an open file that holds the tree `T` answers `T`'s ids with their values, in order. -/
theorem all_yields (ht : t.Sound d) (hopen : t.core.disposed = false) (hrep : Rep (t.heap d) val 0 T)
    (hroot : t.root.value = T.rootId) (hnd : T.toList.Nodup) :
    Yields TreeFile.all d t fun rows ρ H => rows = rowsOf val T.toList ∧ ρ = t.root.value ∧ H = t.heap d :=
  walk_yields ht hopen hrep hroot hnd fun _ hfuel => walkFor_appends T hrep hfuel

/-- Searching an open file that holds the tree `T`, with values of the operand's kind ascending
along it, answers the ids of `T` whose value satisfies the comparison, with their values, in
order. -/
theorem range_yields (ht : t.Sound d) (hopen : t.core.disposed = false) (hrep : Rep (t.heap d) val 0 T)
    (hroot : t.root.value = T.rootId) (hnd : T.toList.Nodup) (hasc : Ascending val T.toList)
    (cmp : Comparison) {o : Value} (hkind : ∀ k ∈ T.toList, (val k).kind = o.kind) :
    Yields (TreeFile.range cmp o) d t fun rows ρ H =>
      rows = rowsOf val (T.toList.filter fun k => cmp.accepts ((val k).compare o)) ∧ ρ = t.root.value ∧
        H = t.heap d :=
  walk_yields ht hopen hrep hroot hnd fun _ hfuel => searchFor_appends cmp o T hrep hasc hkind hfuel

/-! ## Files holding rows -/

/-- An open, sound file over `d` holds the rows `R`: its heap holds a tree whose ids, with their
values, are `R` in order, the values of the file's kind and never going down. -/
structure Lists (d : Disk) (t : TreeFile) (R : List (Nat × Value)) : Prop where
  sound : t.Sound d
  opened : t.core.disposed = false
  holds : ∃ (T : IdTree) (val : Nat → Value), Rep (t.heap d) val 0 T ∧ t.root.value = T.rootId ∧
    T.toList.Nodup ∧ Ascending val T.toList ∧ (∀ k ∈ T.toList, (val k).kind = t.kind) ∧ R = rowsOf val T.toList

/-- A read that keeps the heap and the root keeps the rows a file holds. -/
theorem Lists.of_keeps {R : List (Nat × Value)} {t' : TreeFile} (h : t.Lists d R) (hk : Keeps d t t')
    (hs : t'.Sound d) (hρ : t'.root.value = t.root.value) (hH : t'.heap d = t.heap d) : t'.Lists d R := by
  obtain ⟨T, val, hrep, hroot, hnd, hasc, hkind, hR⟩ := h.holds
  refine ⟨hs, by rw [hk.core]; exact h.opened, T, val, hH ▸ hrep, hρ.trans hroot, hnd, hasc, ?_, hR⟩
  rw [hk.kind]
  exact hkind

theorem Lists.nodup {R : List (Nat × Value)} (h : t.Lists d R) : (R.map Prod.fst).Nodup := by
  obtain ⟨T, val, -, -, hnd, -, -, rfl⟩ := h.holds
  have hfst : (rowsOf val T.toList).map Prod.fst = T.toList := by
    rw [rowsOf, List.map_map]
    exact List.map_id' _
  rw [hfst]
  exact hnd

/-- Listing a file that holds `R` answers `R` and leaves a file that still holds it. -/
theorem Lists.all {R : List (Nat × Value)} (h : t.Lists d R) :
    ∃ t', TreeFile.all (d, t) = .ok R (d, t') ∧ t'.Lists d R ∧ t'.kind = t.kind := by
  obtain ⟨T, val, hrep, hroot, hnd, -, -, hR⟩ := h.holds
  obtain ⟨r, t', hrun, hk, hs, hr, hρ, hH⟩ := all_yields h.sound h.opened hrep hroot hnd
  exact ⟨t', by rw [hr, ← hR] at hrun; exact hrun, h.of_keeps hk hs hρ hH, hk.kind⟩

/-- Searching a file that holds `R` with an operand of its kind answers the rows of `R` whose value
satisfies the comparison, in order, and leaves a file that still holds `R`. -/
theorem Lists.range {R : List (Nat × Value)} (h : t.Lists d R) (cmp : Comparison) {o : Value}
    (ho : o.kind = t.kind) :
    ∃ t', TreeFile.range cmp o (d, t) = .ok (R.filter fun row => cmp.accepts (row.2.compare o)) (d, t') ∧
      t'.Lists d R ∧ t'.kind = t.kind := by
  obtain ⟨T, val, hrep, hroot, hnd, hasc, hkind, hR⟩ := h.holds
  obtain ⟨r, t', hrun, hk, hs, hr, hρ, hH⟩ :=
    range_yields h.sound h.opened hrep hroot hnd hasc cmp fun k hk => (hkind k hk).trans ho.symm
  have hrows : r = R.filter fun row => cmp.accepts (row.2.compare o) := by
    rw [hr, hR]
    exact rowsOf_filter val T.toList fun v => cmp.accepts (v.compare o)
  exact ⟨t', by rw [hrows] at hrun; exact hrun, h.of_keeps hk hs hρ hH, hk.kind⟩

end TreeFile

end ColumnDb.Tree
