import Mathlib
import ColumnDb.Proofs.FreeChain

/-!
# The allocator refines a pool of ids

An allocator stands for an `IdPool`: the latest id handed out, and the free
ids in the order the free chain holds them. Handing out an id takes the last
free one, or the id after `latest`; claiming an id takes it off the free
list, or raises `latest` to it and frees the ids skipped on the way;
releasing an allocated id appends it. On the pool alone these keep the free
ids distinct, positive and at most `latest`, and never lower `latest`.

`Allocator.Holds` ties an allocator to its store: the free chain keeps
`FreeChain.Spells`, the latest cell is the first eight bytes of the file, and
no free id lies above `latest`. Every operation refines its pool operation
and keeps the invariant; a write away from the allocator's own bytes keeps
it; and a flush leaves a store from which `Allocator.open` reads back exactly
the flushed allocator.
-/

set_option autoImplicit false

namespace ColumnDb.Slot

open ColumnDb.Disk

/-- The ids of a slot file: the latest id handed out, and the free ids in chain order, the last
of which is handed out first. -/
structure IdPool where
  latest : Nat
  free : List Nat
deriving DecidableEq, Repr

namespace IdPool

variable (p : IdPool)

/-- An id is allocated when it is neither 0, nor above `latest`, nor free. -/
def Allocated (id : Nat) : Prop := 0 < id ∧ id ≤ p.latest ∧ id ∉ p.free

instance (id : Nat) : Decidable (p.Allocated id) := inferInstanceAs (Decidable (_ ∧ _ ∧ _))

/-- Hands out the last free id, or the id after `latest`. -/
def next : Nat × IdPool :=
  match p.free.getLast? with
  | some x => (x, { p with free := p.free.dropLast })
  | none => (p.latest + 1, { p with latest := p.latest + 1 })

/-- Claims an id: a free id leaves the list, and an id above `latest` becomes `latest` while
the ids skipped on the way are freed in ascending order; 0 and allocated ids are refused. -/
def claim (x : Nat) : Option IdPool :=
  if x = 0 then none
  else if x ≤ p.latest then
    if x ∈ p.free then some { p with free := p.free.erase x } else none
  else some ⟨x, p.free ++ List.range' (p.latest + 1) (x - p.latest - 1)⟩

/-- Frees an allocated id; any other id is left alone. -/
def release (x : Nat) : IdPool :=
  if p.Allocated x then { p with free := p.free ++ [x] } else p

/-- A pool whose free ids are distinct, positive and at most `latest`. -/
structure Valid : Prop where
  nodup : p.free.Nodup
  pos : ∀ x ∈ p.free, 0 < x
  le_latest : ∀ x ∈ p.free, x ≤ p.latest

variable {p}

theorem next_of_nil (h : p.free = []) : p.next = (p.latest + 1, { p with latest := p.latest + 1 }) := by
  simp [next, h]

theorem next_of_concat {ms : List Nat} {x : Nat} (h : p.free = ms ++ [x]) :
    p.next = (x, { p with free := ms }) := by
  simp [next, h]

/-- Handing out an id keeps the pool valid and hands out an id that was not allocated and now
is. -/
theorem Valid.next (h : p.Valid) :
    p.next.2.Valid ∧ p.latest ≤ p.next.2.latest ∧ ¬ p.Allocated p.next.1 ∧ p.next.2.Allocated p.next.1 := by
  rcases List.eq_nil_or_concat' p.free with hf | ⟨ms, x, hf⟩
  · rw [next_of_nil hf]
    refine ⟨⟨by simp [hf], by simp [hf], by simp [hf]⟩, by simp, fun ha => ?_, ?_⟩
    · have := ha.2.1
      omega
    · exact ⟨by omega, le_refl _, by simp [hf]⟩
  · rw [next_of_concat hf]
    have hnd : (ms ++ [x]).Nodup := hf ▸ h.nodup
    have hx : x ∈ p.free := by simp [hf]
    refine ⟨⟨hnd.sublist (List.sublist_append_left _ _), fun m hm => h.pos m (by simp [hf, hm]),
      fun m hm => h.le_latest m (by simp [hf, hm])⟩, le_refl _, fun ha => ha.2.2 hx, ?_⟩
    refine ⟨h.pos x hx, h.le_latest x hx, fun hm => ?_⟩
    exact (List.nodup_append.mp hnd).2.2 x hm x (List.mem_singleton_self x) rfl

/-- A claim is refused exactly for 0 and for allocated ids. -/
theorem claim_eq_none (x : Nat) : p.claim x = none ↔ x = 0 ∨ p.Allocated x := by
  unfold claim Allocated
  by_cases h0 : x = 0
  · simp [h0]
  by_cases hle : x ≤ p.latest
  · by_cases hx : x ∈ p.free <;> simp [h0, hle, hx]; omega
  · simp [h0, hle]

/-- A claim that succeeds keeps the pool valid, never lowers `latest`, and leaves the claimed id
allocated. -/
theorem Valid.claim (h : p.Valid) {x : Nat} {p' : IdPool} (hc : p.claim x = some p') :
    p'.Valid ∧ p.latest ≤ p'.latest ∧ p'.Allocated x := by
  unfold IdPool.claim at hc
  split at hc
  · cases hc
  next h0 =>
  split at hc
  · next hle =>
    split at hc
    · next hx =>
      cases hc
      refine ⟨⟨h.nodup.erase x, fun m hm => h.pos m (List.mem_of_mem_erase hm),
        fun m hm => h.le_latest m (List.mem_of_mem_erase hm)⟩, le_refl _, by omega, hle, ?_⟩
      exact h.nodup.not_mem_erase
    · cases hc
  · next hle =>
    cases hc
    -- the skipped ids lie strictly between the old `latest` and `x`
    have hgap : ∀ m ∈ List.range' (p.latest + 1) (x - p.latest - 1), p.latest < m ∧ m < x := by
      intro m hm
      rw [List.mem_range'_1] at hm
      omega
    refine ⟨⟨?_, ?_, ?_⟩, show p.latest ≤ x by omega, by omega, le_refl _, ?_⟩
    · refine List.nodup_append.mpr ⟨h.nodup, List.nodup_range', fun a ha b hb hab => ?_⟩
      have := h.le_latest a ha
      have := (hgap b hb).1
      omega
    · intro m hm
      rcases List.mem_append.mp hm with hm | hm
      · exact h.pos m hm
      · have := (hgap m hm).1
        omega
    · intro m hm
      rcases List.mem_append.mp hm with hm | hm
      · have := h.le_latest m hm
        dsimp only
        omega
      · exact Nat.le_of_lt (hgap m hm).2
    · intro hm
      rcases List.mem_append.mp hm with hm | hm
      · have := h.le_latest x hm
        omega
      · have := (hgap x hm).2
        omega

/-- Releasing keeps the pool valid and `latest` as it is, and leaves the id unallocated. -/
theorem Valid.release (h : p.Valid) (x : Nat) :
    (p.release x).Valid ∧ (p.release x).latest = p.latest ∧ ¬ (p.release x).Allocated x := by
  unfold IdPool.release
  split
  · next ha =>
    obtain ⟨hpos, hle, hx⟩ := ha
    refine ⟨⟨?_, ?_, ?_⟩, rfl, fun ha' => ha'.2.2 (by simp)⟩
    · exact List.nodup_append.mpr ⟨h.nodup, List.nodup_singleton x,
        fun a ha b hb hab => hx (by rw [List.mem_singleton.mp hb] at hab; exact hab ▸ ha)⟩
    · intro m hm
      rcases List.mem_append.mp hm with hm | hm
      · exact h.pos m hm
      · rw [List.mem_singleton.mp hm]
        exact hpos
    · intro m hm
      rcases List.mem_append.mp hm with hm | hm
      · exact h.le_latest m hm
      · rw [List.mem_singleton.mp hm]
        exact hle
  · next ha => exact ⟨h, rfl, ha⟩

end IdPool

namespace FreeChain

variable {d : Disk} {s : Nat}

/-- Pushing fresh, distinct, positive ids one after another appends them to the members. -/
theorem Spells.pushAll : ∀ (ks : List Nat) (c : FreeChain), c.Spells d s → ks.Nodup →
    (∀ k ∈ ks, k ∉ c.members.toList ∧ 0 < k ∧ k < Nat.pow 256 8) →
    (ks.foldl (fun c k => c.push d s k) c).Spells d s ∧
      (ks.foldl (fun c k => c.push d s k) c).members.toList = c.members.toList ++ ks ∧
      (ks.foldl (fun c k => c.push d s k) c).layout = c.layout := by
  intro ks
  induction ks with
  | nil => intro c h _ _; simp [h]
  | cons k ks ih =>
    intro c h hnd hks
    obtain ⟨hk, hpos, hfit⟩ := hks k List.mem_cons_self
    obtain ⟨hpush, hmembers⟩ := h.push hk hpos hfit
    have hrest : ∀ k' ∈ ks, k' ∉ (c.push d s k).members.toList ∧ 0 < k' ∧ k' < Nat.pow 256 8 := by
      intro k' hk'
      obtain ⟨hnot, hpos', hfit'⟩ := hks k' (List.mem_cons_of_mem k hk')
      refine ⟨fun hmem => ?_, hpos', hfit'⟩
      rw [hmembers] at hmem
      rcases List.mem_append.mp hmem with hmem | hmem
      · exact hnot hmem
      · exact (List.nodup_cons.mp hnd).1 (List.mem_singleton.mp hmem ▸ hk')
    obtain ⟨h₁, h₂, h₃⟩ := ih (c.push d s k) hpush (List.nodup_cons.mp hnd).2 hrest
    refine ⟨h₁, ?_, by simp [h₃]⟩
    rw [List.foldl_cons, h₂, hmembers]
    simp

end FreeChain

namespace Allocator

/-- The pool an allocator stands for. -/
def pool (a : Allocator) : IdPool := ⟨a.latest.value, a.free.members.toList⟩

@[simp] theorem latest_pool (a : Allocator) : a.pool.latest = a.latest.value := rfl
@[simp] theorem free_pool (a : Allocator) : a.pool.free = a.free.members.toList := rfl

/-- The bytes an allocator keeps in store `s`: the latest cell, and the links of slot 0 and of
the free ids. -/
def Region (a : Allocator) (l : Layout) (s : Nat) : Nat → Nat → Prop :=
  fun t i => t = s ∧ i < 8 ∨ ∃ id ∈ 0 :: a.free.members.toList, l.InLink s id t i

/-- An allocator of layout `l`, true to store `s` of `d`. -/
structure Holds (a : Allocator) (l : Layout) (d : Disk) (s : Nat) : Prop where
  chain : a.free.Spells d s
  layout_eq : a.free.layout = l
  header : 8 ≤ l.header
  le_latest : ∀ m ∈ a.free.members.toList, m ≤ a.latest.value
  offset_eq : a.latest.offset = 0
  width_eq : a.latest.width = 8
  fits : a.latest.Fits
  trueTo : a.latest.TrueTo d s

variable {a : Allocator} {l : Layout} {d : Disk} {s : Nat}

theorem Holds.valid (h : a.Holds l d s) : a.pool.Valid :=
  ⟨h.chain.nodup, h.chain.pos, h.le_latest⟩

theorem Holds.latest_lt (h : a.Holds l d s) : a.latest.value < Nat.pow 256 8 := by
  have := h.fits
  rwa [Cell.Fits, h.width_eq] at this

/-- A new file's allocator holds on any store. -/
theorem holds_create (hw : 8 ≤ l.capacity) (hh : 8 ≤ l.header) : (Allocator.create l).Holds l d s := by
  refine ⟨⟨hw, by simp [create, FreeChain.create], by simp [create, FreeChain.create],
    by simp [create, FreeChain.create], ?_, ?_⟩, rfl, hh, by simp [create, FreeChain.create],
    rfl, rfl, Cell.fits_create 0 8 0, fun hd => by cases hd⟩
  · show Spell _ 0 [] 0
    simp [Spell, FreeChain.link, FreeChain.slot, create, FreeChain.create]
  · intro id b hb
    simp only [create, FreeChain.create, FreeChain.getElem?_insert_nat] at hb
    split at hb
    · next hid =>
      cases hb
      subst hid
      exact ⟨LinkSlot.sound_create _ _ _ _, .inl rfl⟩
    · simp at hb

/-- An allocator read back from a store holds on it. -/
theorem holds_open (hw : 8 ≤ l.capacity) (hh : 8 ≤ l.header) (h : Allocator.open d s l = .ok a) :
    a.Holds l d s ∧ a.latest = Cell.load d s 0 8 := by
  dsimp only [Allocator.open] at h
  cases hc : FreeChain.open d s l (Cell.load d s 0 8).value with
  | error e => rw [hc] at h; cases h
  | ok c =>
    rw [hc] at h
    cases h
    have hlt : (Cell.load d s 0 8).value < Nat.pow 256 8 := Cell.fits_load d s 0 8
    obtain ⟨hspells, hlayout, -, hle⟩ := FreeChain.Spells.of_open hw hlt hc
    exact ⟨⟨hspells, hlayout, hh, hle, rfl, rfl, Cell.fits_load d s 0 8, Cell.trueTo_load d s 0 8⟩, rfl⟩

/-! ## Handing out, claiming and releasing ids -/

theorem nextFreeId_of_some {x : Nat} {c : FreeChain} (h : a.free.popTail d s = (some x, c)) :
    a.nextFreeId d s = (x, { a with free := c }) := by
  simp [nextFreeId, h]

theorem nextFreeId_of_none {c : FreeChain} (h : a.free.popTail d s = (none, c)) :
    a.nextFreeId d s = (a.latest.value + 1, { a with latest := a.latest.set (a.latest.value + 1) }) := by
  simp [nextFreeId, h]

/-- Handing out an id refines the pool's, given room for the id after `latest` when no id is
free. -/
theorem Holds.nextFreeId (h : a.Holds l d s)
    (hroom : a.free.members.toList = [] → a.latest.value + 1 < Nat.pow 256 8) :
    ((a.nextFreeId d s).1, (a.nextFreeId d s).2.pool) = a.pool.next ∧ (a.nextFreeId d s).2.Holds l d s := by
  rcases List.eq_nil_or_concat' a.free.members.toList with hms | ⟨ms, x, hms⟩
  · -- nothing free: `latest` moves up by one
    have hpop : a.free.popTail d s = (none, a.free) := FreeChain.popTail_of_empty hms
    have hv : (a.latest.set (a.latest.value + 1)).value = a.latest.value + 1 :=
      Cell.value_set _ (by rw [h.width_eq]; exact hroom hms)
    rw [nextFreeId_of_none hpop, IdPool.next_of_nil (by simpa using hms)]
    refine ⟨by simp [pool, hv], ⟨h.chain, h.layout_eq, h.header, ?_, by simp [h.offset_eq],
      by simp [h.width_eq], Cell.fits_set _ _, h.trueTo.set _⟩⟩
    simp [hms]
  · -- the last free id leaves the chain
    obtain ⟨hx, hchain, hmembers⟩ := h.chain.popTail hms
    have hpop : a.free.popTail d s = (some x, (a.free.popTail d s).2) := Prod.ext hx rfl
    rw [nextFreeId_of_some hpop, IdPool.next_of_concat (by simpa using hms)]
    refine ⟨by simp [pool, hmembers], ⟨hchain, by simp [h.layout_eq], h.header, ?_, h.offset_eq,
      h.width_eq, h.fits, h.trueTo⟩⟩
    intro m hm
    rw [hmembers] at hm
    exact h.le_latest m (by simp [hms, hm])

theorem isAllocated_iff (a : Allocator) (x : Nat) : a.isAllocated x = true ↔ a.pool.Allocated x := by
  simp [isAllocated, IdPool.Allocated, FreeChain.contains, Nat.pos_iff_ne_zero, and_assoc]

/-- Claiming an id refines the pool's claim; a claim that succeeds keeps the invariant. -/
theorem Holds.tryUse (h : a.Holds l d s) {x : Nat} (hx : x < Nat.pow 256 8) :
    (a.tryUse d s x).map pool = a.pool.claim x ∧ ∀ a', a.tryUse d s x = some a' → a'.Holds l d s := by
  by_cases h0 : x = 0
  · subst h0
    simp [Allocator.tryUse, IdPool.claim]
  by_cases hle : x ≤ a.latest.value
  · by_cases hmem : x ∈ a.free.members.toList
    · -- a free id leaves the chain wherever it stands
      obtain ⟨hrem, hchain, hmembers⟩ := h.chain.remove hmem
      generalize hr : a.free.remove d s x = r at hrem hchain hmembers
      obtain ⟨b, c⟩ := r
      dsimp only at hrem hchain hmembers
      subst hrem
      have htry : a.tryUse d s x = some { a with free := c } := by
        simp [Allocator.tryUse, h0, hle, hr]
      have hlayout : c.layout = l := by rw [← h.layout_eq, ← FreeChain.layout_remove a.free d s x, hr]
      rw [htry]
      refine ⟨by simp [pool, IdPool.claim, h0, hle, hmem, hmembers], ?_⟩
      intro a' ha'
      cases ha'
      refine ⟨hchain, hlayout, h.header, fun m hm => ?_, h.offset_eq, h.width_eq,
        h.fits, h.trueTo⟩
      rw [hmembers] at hm
      exact h.le_latest m (List.mem_of_mem_erase hm)
    · have htry : a.tryUse d s x = none := by
        simp [Allocator.tryUse, h0, hle, FreeChain.remove_of_not_mem hmem]
      rw [htry]
      simp [pool, IdPool.claim, h0, hle, hmem]
  · -- an id above `latest`: the ids skipped on the way are pushed in ascending order
    have hgap : ∀ k ∈ List.range' (a.latest.value + 1) (x - a.latest.value - 1),
        k ∉ a.free.members.toList ∧ 0 < k ∧ k < Nat.pow 256 8 := by
      intro k hk
      rw [List.mem_range'_1] at hk
      exact ⟨fun hm => by have := h.le_latest k hm; omega, by omega, by omega⟩
    obtain ⟨hchain, hmembers, hlayout⟩ := h.chain.pushAll _ _ List.nodup_range' hgap
    have hv : (a.latest.set x).value = x := Cell.value_set _ (by rw [h.width_eq]; exact hx)
    have htry : a.tryUse d s x = some ⟨a.latest.set x,
        (List.range' (a.latest.value + 1) (x - a.latest.value - 1)).foldl
          (fun c k => c.push d s k) a.free⟩ := by
      simp [Allocator.tryUse, h0, hle]
    rw [htry]
    refine ⟨by simp [pool, IdPool.claim, h0, hle, hv, hmembers], ?_⟩
    intro a' ha'
    cases ha'
    refine ⟨hchain, by rw [hlayout, h.layout_eq], h.header, fun m hm => ?_, by simp [h.offset_eq],
      by simp [h.width_eq], Cell.fits_set _ _, h.trueTo.set _⟩
    rw [hmembers] at hm
    rw [hv]
    rcases List.mem_append.mp hm with hm | hm
    · have := h.le_latest m hm
      omega
    · rw [List.mem_range'_1] at hm
      omega

/-- Releasing refines the pool's release and keeps the invariant. -/
theorem Holds.release (h : a.Holds l d s) (x : Nat) :
    (a.release d s x).pool = a.pool.release x ∧ (a.release d s x).Holds l d s := by
  by_cases ha : a.pool.Allocated x
  · have hrel : a.release d s x = { a with free := a.free.push d s x } := by
      simp [Allocator.release, (isAllocated_iff a x).mpr ha]
    obtain ⟨hpos, hle, hx⟩ := ha
    simp only [latest_pool, free_pool] at hle hx
    have hfit : x < Nat.pow 256 8 := Nat.lt_of_le_of_lt hle h.latest_lt
    obtain ⟨hchain, hmembers⟩ := h.chain.push hx hpos hfit
    rw [hrel]
    refine ⟨by simp [pool, IdPool.release, IdPool.Allocated, hmembers, hpos, hle, hx], ⟨hchain,
      by simp [h.layout_eq], h.header, fun m hm => ?_, h.offset_eq, h.width_eq, h.fits, h.trueTo⟩⟩
    rw [hmembers] at hm
    rcases List.mem_append.mp hm with hm | hm
    · exact h.le_latest m hm
    · rw [List.mem_singleton.mp hm]
      exact hle
  · have hnot : a.isAllocated x = false := Bool.eq_false_iff.mpr fun h' => ha ((isAllocated_iff a x).mp h')
    have hrel : a.release d s x = a := by
      simp [Allocator.release, hnot]
    rw [hrel]
    exact ⟨by simp [IdPool.release, ha], h⟩

/-! ## Writes and flushes -/

/-- The latest cell and the links lie apart, as slots start after the first eight bytes. -/
theorem Holds.latest_apart (h : a.Holds l d s) {id i : Nat} (hi : l.InLink s id s i) : 8 ≤ i := by
  obtain ⟨-, hoff, -⟩ := hi
  have := h.header
  unfold Layout.offset at hoff
  omega

/-- A change to the store away from the allocator's bytes keeps the invariant. -/
theorem Holds.within (h : a.Holds l d s) {d' : Disk} {R : Nat → Nat → Prop} (hw : Disk.Confined d d' R)
    (hR : ∀ t i, a.Region l s t i → ¬ R t i) : a.Holds l d' s := by
  refine ⟨h.chain.within hw fun id hid t i hi => hR t i (.inr ⟨id, hid, h.layout_eq ▸ hi⟩),
    h.layout_eq, h.header, h.le_latest, h.offset_eq, h.width_eq, h.fits, ?_⟩
  refine h.trueTo.within hw fun i h₁ h₂ => hR s i (.inl ⟨rfl, ?_⟩)
  rw [h.offset_eq, h.width_eq] at h₂
  omega

theorem flush_fst (a : Allocator) (d : Disk) (s : Nat) :
    (a.flush d s).1 = ⟨{ a.latest with dirty := false }, { a.free with touched := ∅ }⟩ := by
  simp [Allocator.flush, Cell.flush_fst, FreeChain.flush_fst]

theorem flush_snd (a : Allocator) (d : Disk) (s : Nat) :
    (a.flush d s).2 = (a.free.flush (a.latest.flush d s).2 s).2 := rfl

/-- A flush writes only the allocator's own bytes, keeps its pool and its invariant, and leaves
a store from which the flushed allocator is read back exactly. -/
theorem Holds.flush (h : a.Holds l d s) (hs : s < d.stores.size) :
    Disk.Within d (a.flush d s).2 (a.Region l s) ∧ (a.flush d s).1.pool = a.pool ∧
      (a.flush d s).1.Holds l (a.flush d s).2 s ∧ Allocator.open (a.flush d s).2 s l = .ok (a.flush d s).1 := by
  -- first the latest cell, within the first eight bytes
  have hw₁ : Disk.Within d (a.latest.flush d s).2 fun t i => t = s ∧ i < 8 := by
    have := Cell.within_flush a.latest d s
    rw [h.offset_eq, h.width_eq] at this
    exact this.mono fun t i ⟨ht, _, hi⟩ => ⟨ht, by omega⟩
  have hchain₁ : a.free.Spells (a.latest.flush d s).2 s :=
    h.chain.within hw₁.confined fun id _ t i hi ⟨ht, hlt⟩ => by
      subst ht
      have := h.latest_apart (h.layout_eq ▸ hi)
      omega
  have hs₁ : s < (a.latest.flush d s).2.stores.size := hw₁.1 ▸ hs
  have hstored₁ : a.latest.stored (a.latest.flush d s).2 s = a.latest.value :=
    Cell.stored_flush hs h.fits h.trueTo
  -- then the touched links, which miss the latest cell
  have hw₂ := hchain₁.within_flush
  obtain ⟨hspell, hchain₂⟩ := hchain₁.flush hs₁
  have hstored₂ : a.latest.stored (a.flush d s).2 s = a.latest.value := by
    have hread := hw₂.confined.read_eq s a.latest.offset a.latest.width fun i h₁ h₂ ⟨id, _, hi⟩ => by
      have := h.latest_apart (h.layout_eq ▸ hi)
      rw [h.offset_eq, h.width_eq] at h₂
      omega
    rw [flush_snd, ← hstored₁]
    unfold Cell.stored
    rw [hread]
  have hwithin : Disk.Within d (a.flush d s).2 (a.Region l s) :=
    (hw₁.trans hw₂).mono fun t i hti => by
      rcases hti with hti | ⟨id, hid, hi⟩
      · exact .inl hti
      · exact .inr ⟨id, hid, h.layout_eq ▸ hi⟩
  have hholds : (a.flush d s).1.Holds l (a.flush d s).2 s := by
    rw [flush_fst]
    exact ⟨hchain₂, h.layout_eq, h.header, h.le_latest, h.offset_eq, h.width_eq, h.fits,
      fun _ => hstored₂⟩
  refine ⟨hwithin, by simp [flush_fst, pool], hholds, ?_⟩
  -- reading back: the latest cell, then the chain its links spell
  have hload : Cell.load (a.flush d s).2 s 0 8 = { a.latest with dirty := false } := by
    rw [← h.offset_eq, ← h.width_eq]
    exact Cell.load_of_stored hstored₂
  have hopen : FreeChain.open (a.flush d s).2 s l a.latest.value = .ok ⟨l, a.free.members, ∅⟩ := by
    have hwide := h.chain.wide
    rw [h.layout_eq] at hwide
    have := FreeChain.open_of_spell (h.layout_eq ▸ hspell) h.chain.nodup
      (fun m hm => ⟨h.chain.pos m hm, h.le_latest m hm⟩) (by omega)
    rw [flush_snd]
    simpa using this
  dsimp only [Allocator.open]
  rw [hload, hopen, flush_fst, ← h.layout_eq]
  rfl

end Allocator

end ColumnDb.Slot
