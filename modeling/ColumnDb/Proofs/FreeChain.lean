import Mathlib
import ColumnDb.Proofs.Cell
import ColumnDb.Slot.Inspect
import ColumnDb.Slot.Allocator

/-!
# The free chain spells its members

A free chain keeps its members twice: as a list in memory, and as links in
the first eight bytes of slot 0 and of every member, each naming the next
member and the last naming 0. The links live partly in the store and partly
in the touched slots waiting for the next flush; `FreeChain.link` reads them
as the chain sees them. `Spell link a ms b` says that following `link` from
`a` meets the ids `ms` in order and then `b`.

`FreeChain.Spells` is the invariant: the links spell the members from
slot 0 and end in 0, the members are distinct positive ids that fit a link,
and every touched slot is a clean or dirty copy of its own link, kept for
slot 0 or a member only. Each of `push`, `popTail` and `remove` keeps it;
a write that misses the links of slot 0 and of the members keeps it; and a
flush leaves a store whose links spell the members by themselves, which is
what reading the chain back (`FreeChain.open`) follows.
-/

set_option autoImplicit false

namespace ColumnDb.Slot

open ColumnDb.Disk ColumnDb.Bytes

/-! ## Slots of a layout -/

theorem Layout.offset_add_le {l : Layout} {a b : Nat} (hab : a < b) :
    l.offset a + l.capacity ≤ l.offset b := by
  unfold Layout.offset
  have : (a + 1) * l.capacity ≤ b * l.capacity := Nat.mul_le_mul_right _ hab
  rw [Nat.succ_mul] at this
  omega

/-- The first eight bytes of a slot, where its link lives. -/
def Layout.InLink (l : Layout) (s id : Nat) : Nat → Nat → Prop :=
  fun t i => t = s ∧ l.offset id ≤ i ∧ i < l.offset id + 8

/-- Links of different slots do not meet when a slot holds a link. -/
theorem Layout.inLink_disjoint {l : Layout} (hl : 8 ≤ l.capacity) {s a b : Nat} (hab : a ≠ b) :
    ∀ t i, l.InLink s a t i → ¬ l.InLink s b t i := by
  intro t i ⟨_, ha₁, ha₂⟩ ⟨_, hb₁, hb₂⟩
  rcases Nat.lt_or_gt_of_ne hab with h | h
  · have := Layout.offset_add_le (l := l) h
    omega
  · have := Layout.offset_add_le (l := l) h
    omega

/-- A slot whose link is not zero starts inside the store. -/
theorem lt_size_of_storedLink_ne_zero {d : Disk} {s : Nat} {l : Layout} {id : Nat}
    (h : storedLink d s l id ≠ 0) : l.offset id < d.size s :=
  lt_size_of_readLE_ne_zero h

/-! ## Following links -/

/-- Following `link` from `a` meets the ids `ms` in order and then `b`. -/
def Spell (link : Nat → Nat) : Nat → List Nat → Nat → Prop
  | a, [], b => link a = b
  | a, m :: ms, b => link a = m ∧ Spell link m ms b

/-- The last id a walk from `a` through `ms` stands on. -/
def lastOf (a : Nat) (ms : List Nat) : Nat := (a :: ms).getLast (List.cons_ne_nil a ms)

@[simp] theorem lastOf_nil (a : Nat) : lastOf a [] = a := rfl
@[simp] theorem lastOf_cons (a m : Nat) (ms : List Nat) : lastOf a (m :: ms) = lastOf m ms := by
  simp [lastOf]

theorem lastOf_append (a : Nat) (ms : List Nat) (x : Nat) : lastOf a (ms ++ [x]) = x := by
  simp [lastOf]

theorem lastOf_mem (a : Nat) (ms : List Nat) : lastOf a ms ∈ a :: ms := List.getLast_mem _

/-- A walk splits at any member it meets. -/
theorem spell_append (link : Nat → Nat) (ms₁ : List Nat) (m : Nat) (ms₂ : List Nat) :
    ∀ a b, Spell link a (ms₁ ++ m :: ms₂) b ↔ Spell link a ms₁ m ∧ Spell link m ms₂ b := by
  induction ms₁ with
  | nil => intro a b; simp [Spell]
  | cons x xs ih =>
    intro a b
    simp only [List.cons_append, Spell, ih, and_assoc]

/-- Only the links of the ids walked from matter. -/
theorem Spell.congr {link link' : Nat → Nat} {a : Nat} {ms : List Nat} {b : Nat}
    (h : Spell link a ms b) (hag : ∀ x ∈ a :: ms, link' x = link x) : Spell link' a ms b := by
  induction ms generalizing a with
  | nil => exact (hag a List.mem_cons_self).trans h
  | cons m ms ih =>
    refine ⟨(hag a List.mem_cons_self).trans h.1, ih h.2 fun x hx => hag x (List.mem_cons_of_mem a hx)⟩

/-- Relinking the last id of a walk that meets no id twice makes it end elsewhere. -/
theorem Spell.update_last {link : Nat → Nat} {a : Nat} {ms : List Nat} {b : Nat}
    (h : Spell link a ms b) (hnd : (a :: ms).Nodup) (b' : Nat) :
    Spell (Function.update link (lastOf a ms) b') a ms b' := by
  induction ms generalizing a with
  | nil => simp [Spell]
  | cons m ms ih =>
    obtain ⟨ha, hnd'⟩ := List.nodup_cons.mp hnd
    have hne : a ≠ lastOf m ms := fun he => ha (he ▸ lastOf_mem m ms)
    refine ⟨?_, ?_⟩
    · rw [lastOf_cons, Function.update_of_ne hne]
      exact h.1
    · rw [lastOf_cons]
      exact ih h.2 hnd'

/-- Ids that a walk leaves by a link to a member. -/
theorem Spell.link_mem {link : Nat → Nat} {a : Nat} {ms : List Nat} {b : Nat} (h : Spell link a ms b) :
    ∀ x ∈ (a :: ms).dropLast, link x ∈ ms := by
  induction ms generalizing a with
  | nil => simp
  | cons m ms ih =>
    intro x hx
    rw [List.dropLast_cons_cons] at hx
    rcases List.mem_cons.mp hx with rfl | hx
    · rw [h.1]
      exact List.mem_cons_self
    · exact List.mem_cons_of_mem m (ih h.2 x hx)

theorem length_le_of_nodup_lt {L : List Nat} {n : Nat} (hnd : L.Nodup) (hlt : ∀ x ∈ L, x < n) :
    L.length ≤ n := by
  rw [← List.toFinset_card_of_nodup hnd]
  calc L.toFinset.card ≤ (Finset.range n).card :=
        Finset.card_le_card fun x hx => Finset.mem_range.mpr (hlt x (List.mem_toFinset.mp hx))
    _ = n := Finset.card_range n

/-- A stored walk through distinct positive ids is no longer than its store: every id but the
last has a link that is not zero, so its slot starts inside the store. -/
theorem Spell.length_le_size {d : Disk} {s : Nat} {l : Layout} {a : Nat} {ms : List Nat} {b : Nat}
    (h : Spell (storedLink d s l) a ms b) (hnd : (a :: ms).Nodup) (hpos : ∀ m ∈ ms, 0 < m)
    (hl : 1 ≤ l.capacity) : ms.length ≤ d.size s := by
  have hlen : ((a :: ms).dropLast).length = ms.length := by simp
  rw [← hlen]
  refine length_le_of_nodup_lt (hnd.sublist (List.dropLast_sublist _)) fun x hx => ?_
  have hne : storedLink d s l x ≠ 0 := fun h0 => by
    have := hpos _ (h.link_mem x hx)
    omega
  have hoff := lt_size_of_storedLink_ne_zero hne
  have : x ≤ l.offset x := by
    unfold Layout.offset
    have := Nat.le_mul_of_pos_right x hl
    omega
  omega

/-! ## Link slots -/

namespace LinkSlot

/-- A link slot of a layout's slot `id`, true to store `s` of `d`. -/
structure Sound (l : Layout) (d : Disk) (s id : Nat) (b : LinkSlot) : Prop where
  id_eq : b.id = id
  offset_eq : b.next.offset = l.offset id
  width_eq : b.next.width = 8
  fits : b.next.Fits
  trueTo : b.next.TrueTo d s

theorem sound_load (l : Layout) (d : Disk) (s id : Nat) : (load d s l id).Sound l d s id :=
  ⟨rfl, rfl, rfl, Cell.fits_load d s _ 8, Cell.trueTo_load d s _ 8⟩

theorem sound_create (l : Layout) (d : Disk) (s id : Nat) : (create l id).Sound l d s id :=
  ⟨rfl, rfl, rfl, Cell.fits_create _ 8 0, fun h => by cases h⟩

theorem Sound.setNext {l : Layout} {d : Disk} {s id : Nat} {b : LinkSlot} (h : b.Sound l d s id)
    (v : Nat) : (b.setNext v).Sound l d s id :=
  ⟨h.id_eq, by simp [LinkSlot.setNext, h.offset_eq], by simp [LinkSlot.setNext, h.width_eq],
    Cell.fits_set _ v, h.trueTo.set v⟩

theorem Sound.within {l : Layout} {d d' : Disk} {s id : Nat} {b : LinkSlot} {R : Nat → Nat → Prop}
    (h : b.Sound l d s id) (hw : Disk.Confined d d' R) (hR : ∀ t i, l.InLink s id t i → ¬ R t i) :
    b.Sound l d' s id :=
  ⟨h.id_eq, h.offset_eq, h.width_eq, h.fits,
    h.trueTo.within hw fun i h₁ h₂ => hR s i ⟨rfl, by rw [← h.offset_eq]; exact h₁,
      by rw [← h.offset_eq, ← h.width_eq]; exact h₂⟩⟩

@[simp] theorem value_next_load (d : Disk) (s : Nat) (l : Layout) (id : Nat) :
    (load d s l id).next.value = storedLink d s l id := by
  simp [load, storedLink]

theorem value_next_setNext (b : LinkSlot) {v : Nat} (hw : b.next.width = 8) (hv : v < Nat.pow 256 8) :
    (b.setNext v).next.value = v :=
  Cell.value_set b.next (by rw [hw]; exact hv)

@[simp] theorem value_next_create (l : Layout) (id : Nat) : (create l id).next.value = 0 := by
  simp [create, Cell.create]

/-- Flushing a link slot writes at most its own link. -/
theorem within_flush {l : Layout} {d₀ : Disk} {s id : Nat} {b : LinkSlot} (h : b.Sound l d₀ s id)
    (d : Disk) : Disk.Within d (b.flush d s).2 (l.InLink s id) := by
  have := Cell.within_flush b.next d s
  rw [h.offset_eq, h.width_eq] at this
  exact this

/-- After a flush the store holds the slot's link. -/
theorem storedLink_flush {l : Layout} {d₀ d : Disk} {s id : Nat} {b : LinkSlot} (h : b.Sound l d₀ s id)
    (hs : s < d.stores.size) (ht : b.next.TrueTo d s) : storedLink (b.flush d s).2 s l id = b.next.value := by
  have := Cell.stored_flush hs h.fits ht
  unfold Cell.stored at this
  rw [h.offset_eq, h.width_eq] at this
  exact this

theorem reads_trueTo {l : Layout} {d₀ : Disk} {s id : Nat} {b : LinkSlot} (h : b.Sound l d₀ s id) :
    Disk.Reads (l.InLink s id) fun d => s < d.stores.size ∧ b.next.TrueTo d s := by
  intro d d' hsize hsame ⟨hs, ht⟩
  refine ⟨lt_of_lt_of_le hs hsize, fun hd => ?_⟩
  have hread : d'.read s b.next.offset b.next.width = d.read s b.next.offset b.next.width := by
    simp only [Disk.read_eq_map]
    refine List.map_congr_left fun i hi => hsame s _ ⟨rfl, ?_, ?_⟩
    · rw [← h.offset_eq]
      omega
    · simp only [List.mem_range] at hi
      rw [← h.offset_eq]
      rw [h.width_eq] at hi
      omega
  unfold Cell.stored
  rw [hread]
  exact ht hd

theorem reads_storedLink (l : Layout) (s id v : Nat) :
    Disk.Reads (l.InLink s id) fun d => storedLink d s l id = v := by
  intro d d' _ hsame hv
  rw [← hv]
  unfold storedLink
  have hread : d'.read s (l.offset id) 8 = d.read s (l.offset id) 8 := by
    simp only [Disk.read_eq_map]
    refine List.map_congr_left fun i hi => hsame s (l.offset id + i) ⟨rfl, ?_, ?_⟩
    · omega
    · simp only [List.mem_range] at hi
      omega
  rw [hread]

end LinkSlot

/-! ## The chain's view of the links -/

namespace FreeChain

/-- The link the chain sees at a slot: its touched copy's, or the stored one. -/
def link (c : FreeChain) (d : Disk) (s id : Nat) : Nat := (c.slot d s id).next.value

theorem link_of_touched {c : FreeChain} {d : Disk} {s id : Nat} {b : LinkSlot}
    (h : c.touched[id]? = some b) : c.link d s id = b.next.value := by
  simp [link, slot, h]

theorem link_of_not_touched {c : FreeChain} {d : Disk} {s id : Nat} (h : c.touched[id]? = none) :
    c.link d s id = storedLink d s c.layout id := by
  simp [link, slot, h]

theorem getElem?_insert_nat {β : Type} (t : Std.TreeMap Nat β) (k a : Nat) (v : β) :
    (t.insert k v)[a]? = if k = a then some v else t[a]? := by
  rw [Std.TreeMap.getElem?_insert]
  simp

theorem getElem?_erase_nat {β : Type} (t : Std.TreeMap Nat β) (k a : Nat) :
    (t.erase k)[a]? = if k = a then none else t[a]? := by
  rw [Std.TreeMap.getElem?_erase]
  simp

/-- Relinking changes the chain's view at one slot only. -/
theorem link_relink (c : FreeChain) (d : Disk) (s id : Nat) {v : Nat} (hv : v < Nat.pow 256 8)
    (hw : (c.slot d s id).next.width = 8) :
    (c.relink d s id v).link d s = Function.update (c.link d s) id v := by
  funext x
  by_cases hx : x = id
  · subst hx
    simp only [link, slot, relink, getElem?_insert_nat, if_true, Function.update_self]
    exact LinkSlot.value_next_setNext _ hw hv
  · rw [Function.update_of_ne hx]
    simp only [link, slot, relink, getElem?_insert_nat, if_neg (Ne.symm hx)]

@[simp] theorem layout_relink (c : FreeChain) (d : Disk) (s id v : Nat) :
    (c.relink d s id v).layout = c.layout := rfl

@[simp] theorem members_relink (c : FreeChain) (d : Disk) (s id v : Nat) :
    (c.relink d s id v).members = c.members := rfl

@[simp] theorem layout_push (c : FreeChain) (d : Disk) (s id : Nat) : (c.push d s id).layout = c.layout :=
  rfl

@[simp] theorem layout_popTail (c : FreeChain) (d : Disk) (s : Nat) : (c.popTail d s).2.layout = c.layout := by
  unfold popTail
  split <;> rfl

@[simp] theorem layout_remove (c : FreeChain) (d : Disk) (s id : Nat) :
    (c.remove d s id).2.layout = c.layout := by
  unfold remove
  split <;> rfl

/-- Keeping a slot as touched makes the chain see its link there. -/
theorem link_insert (c : FreeChain) (d : Disk) (s id : Nat) (b : LinkSlot) :
    ({ c with touched := c.touched.insert id b } : FreeChain).link d s =
      Function.update (c.link d s) id b.next.value := by
  funext x
  by_cases hx : x = id
  · subst hx
    simp [link, slot]
  · rw [Function.update_of_ne hx]
    simp only [link, slot, getElem?_insert_nat, if_neg (Ne.symm hx)]

/-- Forgetting a touched slot makes the chain see the stored link there. -/
theorem link_erase (c : FreeChain) (d : Disk) (s id : Nat) :
    ({ c with touched := c.touched.erase id } : FreeChain).link d s =
      Function.update (c.link d s) id (storedLink d s c.layout id) := by
  funext x
  by_cases hx : x = id
  · subst hx
    simp [link, slot]
  · rw [Function.update_of_ne hx]
    simp only [link, slot, getElem?_erase_nat, if_neg (Ne.symm hx)]

/-- The slot a push links from: the last member, or slot 0. -/
theorem back?_getD_eq_lastOf (xs : Array Nat) : xs.back?.getD 0 = lastOf 0 xs.toList := by
  rcases xs with ⟨ms⟩
  cases ms using List.reverseRecOn with
  | nil => rfl
  | append_singleton ms x _ => simp [lastOf_append]

/-! ## The invariant -/

/-- What a free chain keeps true of store `s` on disk `d`: its links spell its members from
slot 0 on and end in 0, and every touched slot is a sound copy of the link of slot 0 or of a
member. -/
structure Spells (c : FreeChain) (d : Disk) (s : Nat) : Prop where
  wide : 8 ≤ c.layout.capacity
  nodup : c.members.toList.Nodup
  pos : ∀ m ∈ c.members.toList, 0 < m
  fits : ∀ m ∈ c.members.toList, m < Nat.pow 256 8
  links : Spell (c.link d s) 0 c.members.toList 0
  touched : ∀ id b, c.touched[id]? = some b →
    b.Sound c.layout d s id ∧ (id = 0 ∨ id ∈ c.members.toList)

variable {c : FreeChain} {d : Disk} {s : Nat}

theorem Spells.nodup_zero (h : c.Spells d s) : (0 :: c.members.toList).Nodup :=
  List.nodup_cons.mpr ⟨fun h0 => Nat.lt_irrefl 0 (h.pos 0 h0), h.nodup⟩

theorem Spells.slot_sound (h : c.Spells d s) (id : Nat) : (c.slot d s id).Sound c.layout d s id := by
  unfold slot
  split
  · next b hb => exact (h.touched id b hb).1
  · exact LinkSlot.sound_load _ _ _ _

/-- Pushing a fresh id links it after the tail, and the chain still spells its members. -/
theorem Spells.push (h : c.Spells d s) {x : Nat} (hx : x ∉ c.members.toList) (hpos : 0 < x)
    (hfit : x < Nat.pow 256 8) :
    (c.push d s x).Spells d s ∧ (c.push d s x).members.toList = c.members.toList ++ [x] := by
  have htail : c.members.back?.getD 0 = lastOf 0 c.members.toList := back?_getD_eq_lastOf _
  have hx0 : x ∉ 0 :: c.members.toList := by
    simp only [List.mem_cons, not_or]
    exact ⟨Nat.ne_of_gt hpos, hx⟩
  have hlink : (c.push d s x).link d s =
      Function.update (Function.update (c.link d s) (lastOf 0 c.members.toList) x) x 0 := by
    funext y
    by_cases hyx : y = x
    · subst hyx
      simp [FreeChain.push, link, slot]
    · rw [Function.update_of_ne hyx]
      have hkeep : (c.push d s x).link d s y = (c.relink d s (c.members.back?.getD 0) x).link d s y := by
        simp [FreeChain.push, link, slot, getElem?_insert_nat, Ne.symm hyx]
      rw [hkeep, htail, link_relink c d s _ hfit (h.slot_sound _).width_eq]
  have hmembers : (c.push d s x).members.toList = c.members.toList ++ [x] := by
    simp [FreeChain.push]
  refine ⟨⟨h.wide, ?_, ?_, ?_, ?_, ?_⟩, hmembers⟩
  · rw [hmembers]
    refine List.nodup_append.mpr ⟨h.nodup, List.nodup_singleton x, fun y hy z hz => ?_⟩
    rw [List.mem_singleton.mp hz]
    exact fun he => hx (he ▸ hy)
  · rw [hmembers]
    intro m hm
    rcases List.mem_append.mp hm with hm | hm
    · exact h.pos m hm
    · rw [List.mem_singleton.mp hm]
      exact hpos
  · rw [hmembers]
    intro m hm
    rcases List.mem_append.mp hm with hm | hm
    · exact h.fits m hm
    · rw [List.mem_singleton.mp hm]
      exact hfit
  · rw [hmembers, hlink, spell_append]
    refine ⟨?_, by simp [Spell]⟩
    -- the old walk now ends at `x` instead of 0, and `x` itself lies off that walk
    refine (h.links.update_last h.nodup_zero x).congr fun y hy => ?_
    exact Function.update_of_ne (fun he : y = x => hx0 (he ▸ hy)) _ _
  · intro id b hb
    simp only [FreeChain.push, getElem?_insert_nat, relink, htail] at hb
    rw [hmembers]
    split at hb
    · next hid =>
      cases hb
      subst hid
      exact ⟨LinkSlot.sound_create _ _ _ _, .inr (by simp)⟩
    · split at hb
      · next hid =>
        cases hb
        subst hid
        refine ⟨(h.slot_sound _).setNext x, ?_⟩
        rcases List.mem_cons.mp (lastOf_mem 0 c.members.toList) with h0 | hm
        · exact .inl h0
        · exact .inr (List.mem_append_left _ hm)
      · obtain ⟨hsound, hmem⟩ := h.touched id b hb
        refine ⟨hsound, ?_⟩
        rcases hmem with h0 | hm
        · exact .inl h0
        · exact .inr (List.mem_append_left _ hm)

/-- Popping from a chain with no member changes nothing. -/
theorem popTail_of_empty (hms : c.members.toList = []) : c.popTail d s = (none, c) := by
  have : c.members = #[] := Array.toList_eq_nil_iff.mp hms
  simp [FreeChain.popTail, this]

/-- Popping hands out the last member and relinks the one before it to 0. -/
theorem Spells.popTail (h : c.Spells d s) {ms : List Nat} {x : Nat} (hms : c.members.toList = ms ++ [x]) :
    (c.popTail d s).1 = some x ∧ (c.popTail d s).2.Spells d s ∧
      (c.popTail d s).2.members.toList = ms := by
  have hback : c.members.back? = some x := by
    rw [show c.members.back? = c.members.toList.getLast? by simp, hms]
    simp
  have hpop : c.members.pop.toList = ms := by simp [hms]
  have hnd : (0 :: (ms ++ [x])).Nodup := hms ▸ h.nodup_zero
  have hnd' : (0 :: ms).Nodup := hnd.sublist (List.Sublist.cons_cons 0 (List.sublist_append_left ms [x]))
  have hx0 : x ∉ 0 :: ms := by
    intro hx
    have hsplit : ((0 :: ms) ++ [x]).Nodup := by simpa using hnd
    exact (List.nodup_append.mp hsplit).2.2 x hx x (by simp) rfl
  have hpre : c.members.pop.back?.getD 0 = lastOf 0 ms := by rw [back?_getD_eq_lastOf, hpop]
  -- the chain's view: the new tail links to 0, the popped slot reads as stored
  have hlink : ∀ y ∈ 0 :: ms,
      (c.popTail d s).2.link d s y = Function.update (c.link d s) (lastOf 0 ms) 0 y := by
    intro y hy
    have hyx : y ≠ x := fun he => hx0 (he ▸ hy)
    have hkeep : (c.popTail d s).2.link d s y =
        ((({ c with members := c.members.pop } : FreeChain).relink d s (lastOf 0 ms) 0).link d s y) := by
      simp [FreeChain.popTail, hback, hpre, link, slot, getElem?_erase_nat, Ne.symm hyx]
    rw [hkeep, @link_relink { c with members := c.members.pop } d s (lastOf 0 ms) 0 (by decide)
      (h.slot_sound _).width_eq]
    rfl
  have hmembers : (c.popTail d s).2.members.toList = ms := by
    simp [FreeChain.popTail, hback, hms]
  have hlayout : (c.popTail d s).2.layout = c.layout := by
    simp [FreeChain.popTail, hback, relink]
  have hspell : Spell (c.link d s) 0 ms x ∧ Spell (c.link d s) x [] 0 := by
    rw [← spell_append, ← hms]
    exact h.links
  refine ⟨by simp [FreeChain.popTail, hback], ⟨hlayout ▸ h.wide, ?_, ?_, ?_, ?_, ?_⟩, hmembers⟩
  · rw [hmembers]
    exact (List.nodup_cons.mp hnd').2
  · rw [hmembers]
    exact fun m hm => h.pos m (by rw [hms]; exact List.mem_append_left _ hm)
  · rw [hmembers]
    exact fun m hm => h.fits m (by rw [hms]; exact List.mem_append_left _ hm)
  · rw [hmembers]
    exact (hspell.1.update_last hnd' 0).congr hlink
  · intro id b hb
    rw [hmembers, hlayout]
    simp only [FreeChain.popTail, hback, hpre, relink, getElem?_erase_nat, getElem?_insert_nat] at hb
    split at hb
    · cases hb
    · next hidx =>
      split at hb
      · next hid =>
        cases hb
        subst hid
        exact ⟨(h.slot_sound _).setNext 0, List.mem_cons.mp (lastOf_mem 0 ms)⟩
      · obtain ⟨hsound, hmem⟩ := h.touched id b hb
        refine ⟨hsound, ?_⟩
        rw [hms] at hmem
        rcases hmem with h0 | hm
        · exact .inl h0
        · rcases List.mem_append.mp hm with hm | hm
          · exact .inr hm
          · exact absurd (List.mem_singleton.mp hm).symm hidx

theorem idxOf?_of_toList {xs : Array Nat} {ms₁ ms₂ : List Nat} {x : Nat}
    (hxs : xs.toList = ms₁ ++ x :: ms₂) (h : x ∉ ms₁) : xs.idxOf? x = some ms₁.length := by
  have hlt : ms₁.length < xs.size := by
    rw [← Array.length_toList, hxs]
    simp
  have hget : ∀ j (hj : j < xs.size), xs[j] = (ms₁ ++ x :: ms₂).get ⟨j, by rw [← hxs]; simpa⟩ := by
    intro j hj
    simp only [List.get_eq_getElem, ← hxs, Array.getElem_toList]
  have hfin : xs.finIdxOf? x = some ⟨ms₁.length, hlt⟩ := by
    rw [Array.finIdxOf?_eq_some_iff]
    refine ⟨?_, fun j hj => ?_⟩
    · show xs[ms₁.length] = x
      rw [hget]
      simp
    · have hj' : (j : Nat) < ms₁.length := hj
      show ¬ xs[(j : Nat)] = x
      rw [hget, List.get_eq_getElem, List.getElem_append_left hj']
      exact fun he => h (he ▸ List.getElem_mem hj')
  rw [Array.idxOf?_eq_map_finIdxOf?_val, hfin]
  rfl

/-- Removing an id that is no member changes nothing. -/
theorem remove_of_not_mem {x : Nat} (hx : x ∉ c.members.toList) : c.remove d s x = (false, c) := by
  have : c.members.idxOf? x = none := Array.idxOf?_eq_none_iff.mpr (by simpa using hx)
  simp [FreeChain.remove, this]

/-- Removing a member splices its neighbours together. -/
theorem Spells.remove (h : c.Spells d s) {x : Nat} (hx : x ∈ c.members.toList) :
    (c.remove d s x).1 = true ∧ (c.remove d s x).2.Spells d s ∧
      (c.remove d s x).2.members.toList = c.members.toList.erase x := by
  obtain ⟨ms₁, ms₂, hms⟩ := List.append_of_mem hx
  have hnd : (0 :: (ms₁ ++ x :: ms₂)).Nodup := hms ▸ h.nodup_zero
  have hx₁ : x ∉ 0 :: ms₁ := by
    have : ((0 :: ms₁) ++ x :: ms₂).Nodup := by simpa using hnd
    exact fun hm => (List.nodup_append.mp this).2.2 x hm x List.mem_cons_self rfl
  have hidx : c.members.idxOf? x = some ms₁.length :=
    idxOf?_of_toList hms (fun hm => hx₁ (List.mem_cons_of_mem 0 hm))
  have hget : ∀ i : Nat, c.members[i]? = (ms₁ ++ x :: ms₂)[i]? := by
    intro i
    rw [← hms, Array.getElem?_toList]
  have hprev : (if ms₁.length == 0 then 0 else c.members.getD (ms₁.length - 1) 0) = lastOf 0 ms₁ := by
    cases ms₁ using List.reverseRecOn with
    | nil => rfl
    | append_singleton ms y _ =>
      simp only [List.length_append, List.length_singleton, Nat.add_eq_zero_iff, one_ne_zero,
        and_false, beq_iff_eq, if_false, Nat.add_sub_cancel, lastOf_append]
      simp [hget]
  have hnext : c.members.getD (ms₁.length + 1) 0 = ms₂.headD 0 := by
    cases ms₂ <;> simp [hget]
  have hrem : c.remove d s x = (true, { c.relink d s (lastOf 0 ms₁) (ms₂.headD 0) with
      members := c.members.erase x,
      touched := (c.relink d s (lastOf 0 ms₁) (ms₂.headD 0)).touched.erase x }) := by
    simp only [FreeChain.remove, hidx]
    rw [hprev, hnext]
    rfl
  have herase : (ms₁ ++ x :: ms₂).erase x = ms₁ ++ ms₂ := by
    rw [List.erase_append_right _ (fun hm => hx₁ (List.mem_cons_of_mem 0 hm)), List.erase_cons_head]
  have hmembers : (c.remove d s x).2.members.toList = ms₁ ++ ms₂ := by
    simp [hrem, hms, herase]
  have hlayout : (c.remove d s x).2.layout = c.layout := by
    simp [hrem, relink]
  have hnd' : (0 :: (ms₁ ++ ms₂)).Nodup :=
    hnd.sublist (List.Sublist.cons_cons 0 (List.Sublist.append_left (List.sublist_cons_self x ms₂) ms₁))
  have hprev_mem : lastOf 0 ms₁ ∈ 0 :: ms₁ := lastOf_mem 0 ms₁
  -- the chain's view: the slot before `x` links past it, `x` reads as stored
  have hlink : ∀ y, y ≠ x → (c.remove d s x).2.link d s y =
      Function.update (c.link d s) (lastOf 0 ms₁) (ms₂.headD 0) y := by
    intro y hyx
    have hkeep : (c.remove d s x).2.link d s y =
        (c.relink d s (lastOf 0 ms₁) (ms₂.headD 0)).link d s y := by
      simp [hrem, link, slot, getElem?_erase_nat, Ne.symm hyx]
    have hfit : ms₂.headD 0 < Nat.pow 256 8 := by
      cases ms₂ with
      | nil => decide
      | cons y ys => exact h.fits y (by rw [hms]; simp)
    rw [hkeep, link_relink c d s _ hfit (h.slot_sound _).width_eq]
  have hspell := h.links
  rw [hms, spell_append] at hspell
  refine ⟨by simp [hrem], ⟨hlayout ▸ h.wide, ?_, ?_, ?_, ?_, ?_⟩, ?_⟩
  · rw [hmembers]
    exact (List.nodup_cons.mp hnd').2
  · rw [hmembers]
    exact fun m hm => h.pos m (by rw [hms]; simp at hm ⊢; tauto)
  · rw [hmembers]
    exact fun m hm => h.fits m (by rw [hms]; simp at hm ⊢; tauto)
  · rw [hmembers]
    have hoff : ∀ y ∈ 0 :: (ms₁ ++ ms₂), (c.remove d s x).2.link d s y =
        Function.update (c.link d s) (lastOf 0 ms₁) (ms₂.headD 0) y := by
      intro y hy
      refine hlink y fun he => ?_
      subst he
      have hsplit : ((0 :: ms₁) ++ y :: ms₂).Nodup := by simpa using hnd
      rcases List.mem_cons.mp hy with h0 | hm
      · exact hx₁ (h0 ▸ List.mem_cons_self)
      · rcases List.mem_append.mp hm with hm | hm
        · exact hx₁ (List.mem_cons_of_mem 0 hm)
        · exact (List.nodup_cons.mp (List.nodup_append.mp hsplit).2.1).1 hm
    refine Spell.congr ?_ hoff
    cases ms₂ with
    | nil =>
      simpa using hspell.1.update_last (hnd.sublist (List.Sublist.cons_cons 0 (by simp))) 0
    | cons y ys =>
      rw [spell_append]
      refine ⟨hspell.1.update_last (hnd.sublist (List.Sublist.cons_cons 0 (by simp))) y, ?_⟩
      -- past the splice the walk runs over links the removal did not touch
      refine hspell.2.2.congr fun z hz => Function.update_of_ne (fun he => ?_) _ _
      subst he
      have : ((0 :: ms₁) ++ x :: y :: ys).Nodup := by simpa using hnd
      exact (List.nodup_append.mp this).2.2 _ hprev_mem _ (List.mem_cons_of_mem x hz) rfl
  · intro id b hb
    rw [hmembers, hlayout]
    simp only [hrem, relink, getElem?_erase_nat, getElem?_insert_nat] at hb
    split at hb
    · cases hb
    · next hidx' =>
      split at hb
      · next hid =>
        cases hb
        subst hid
        refine ⟨(h.slot_sound _).setNext _, ?_⟩
        rcases List.mem_cons.mp hprev_mem with h0 | hm
        · exact .inl h0
        · exact .inr (List.mem_append_left _ hm)
      · obtain ⟨hsound, hmem⟩ := h.touched id b hb
        refine ⟨hsound, ?_⟩
        rw [hms] at hmem
        rcases hmem with h0 | hm
        · exact .inl h0
        · right
          simp only [List.mem_append, List.mem_cons] at hm ⊢
          rcases hm with hm | hm | hm
          · exact .inl hm
          · exact absurd hm.symm hidx'
          · exact .inr hm
  · rw [hmembers, hms, herase]

/-- The chain sees the same links on a disk that differs only away from the links of slot 0
and of the members. -/
theorem link_within {d' : Disk} {R : Nat → Nat → Prop}
    (hw : Disk.Confined d d' R) {id : Nat} (hR : ∀ t i, c.layout.InLink s id t i → ¬ R t i) :
    c.link d' s id = c.link d s id := by
  unfold link slot
  split
  · rfl
  · simp only [LinkSlot.value_next_load, storedLink]
    rw [hw.read_eq s _ 8 fun i h₁ h₂ hr => hR s i ⟨rfl, h₁, h₂⟩ hr]

/-- A write that misses the links of slot 0 and of the members keeps the chain spelling them:
this is how the chain survives the flushes of the slots its file holds rows in. -/
theorem Spells.within (h : c.Spells d s) {d' : Disk} {R : Nat → Nat → Prop} (hw : Disk.Confined d d' R)
    (hR : ∀ id ∈ 0 :: c.members.toList, ∀ t i, c.layout.InLink s id t i → ¬ R t i) :
    c.Spells d' s := by
  refine ⟨h.wide, h.nodup, h.pos, h.fits, ?_, ?_⟩
  · exact h.links.congr fun id hid => link_within hw (hR id hid)
  · intro id b hb
    obtain ⟨hsound, hmem⟩ := h.touched id b hb
    have hid : id ∈ 0 :: c.members.toList := by
      rcases hmem with h0 | hm
      · exact h0 ▸ List.mem_cons_self
      · exact List.mem_cons_of_mem 0 hm
    exact ⟨hsound.within hw (hR id hid), hmem⟩

theorem flush_fst (c : FreeChain) (d : Disk) (s : Nat) : (c.flush d s).1 = { c with touched := ∅ } := rfl

theorem flush_snd (c : FreeChain) (d : Disk) (s : Nat) :
    (c.flush d s).2 = c.touched.toList.foldl (fun d b => (b.2.flush d s).2) d := by
  simp [FreeChain.flush, Std.TreeMap.foldl_eq_foldl_toList]

/-- Flushing writes only the links of touched slots, which are slot 0 and members. -/
theorem Spells.within_flush (h : c.Spells d s) :
    Disk.Within d (c.flush d s).2 fun t i => ∃ id ∈ 0 :: c.members.toList, c.layout.InLink s id t i := by
  rw [flush_snd]
  refine (Disk.within_foldl _ (fun b => c.layout.InLink s b.1) _ (fun d b hb => ?_) d).mono ?_
  · exact LinkSlot.within_flush (h.touched b.1 b.2 (Std.TreeMap.mem_toList_iff_getElem?_eq_some.mp hb)).1 d
  · rintro t i ⟨b, hb, hin⟩
    obtain ⟨_, hmem⟩ := h.touched b.1 b.2 (Std.TreeMap.mem_toList_iff_getElem?_eq_some.mp hb)
    refine ⟨b.1, ?_, hin⟩
    rcases hmem with h0 | hm
    · exact h0 ▸ List.mem_cons_self
    · exact List.mem_cons_of_mem 0 hm

/-- After a flush the store holds every link the chain saw. -/
theorem Spells.storedLink_flush (h : c.Spells d s) (hs : s < d.stores.size) (id : Nat) :
    storedLink (c.flush d s).2 s c.layout id = c.link d s id := by
  rw [flush_snd]
  have hdisj : c.touched.toList.Pairwise fun x y => ∀ t i, c.layout.InLink s x.1 t i →
      ¬ c.layout.InLink s y.1 t i :=
    (Std.TreeMap.distinct_keys_toList (t := c.touched)).imp fun hne =>
      Layout.inLink_disjoint h.wide (by simpa using hne)
  have hsound : ∀ b ∈ c.touched.toList, b.2.Sound c.layout d s b.1 := fun b hb =>
    (h.touched b.1 b.2 (Std.TreeMap.mem_toList_iff_getElem?_eq_some.mp hb)).1
  have hw : ∀ d' b, b ∈ c.touched.toList →
      Disk.Within d' ((b.2.flush d' s).2) (c.layout.InLink s b.1) :=
    fun d' b hb => LinkSlot.within_flush (hsound b hb) d'
  cases ht : c.touched[id]? with
  | some b =>
    -- a touched link is written by its own flush and by no other
    have hmem : (id, b) ∈ c.touched.toList := Std.TreeMap.mem_toList_iff_getElem?_eq_some.mpr ht
    have hpost : ∀ d' b, b ∈ c.touched.toList → s < d'.stores.size ∧ b.2.next.TrueTo d' s →
        storedLink (b.2.flush d' s).2 s c.layout b.1 = b.2.next.value :=
      fun d' b hb hpre => LinkSlot.storedLink_flush (hsound b hb) hpre.1 hpre.2
    have key := @Disk.foldl_flush (Nat × LinkSlot) (fun d b => (b.2.flush d s).2)
      (fun b => c.layout.InLink s b.1)
      (fun b d => s < d.stores.size ∧ b.2.next.TrueTo d s)
      (fun b d => storedLink d s c.layout b.1 = b.2.next.value) c.touched.toList hw hpost
      (fun b hb => LinkSlot.reads_trueTo (hsound b hb))
      (fun b _ => LinkSlot.reads_storedLink c.layout s b.1 b.2.next.value) hdisj d
      (fun b hb => ⟨hs, (hsound b hb).trueTo⟩) (id, b) hmem
    rw [link_of_touched ht]
    exact key
  | none =>
    -- an untouched link lies outside every flushed region
    have hread := (Disk.within_foldl _ (fun b : Nat × LinkSlot => c.layout.InLink s b.1) _ hw d).confined.read_eq s
      (c.layout.offset id) 8 (by
        rintro i h₁ h₂ ⟨b, hb, hin⟩
        have hne : (b : Nat × LinkSlot).1 ≠ id := fun he => by
          rw [Std.TreeMap.mem_toList_iff_getElem?_eq_some, he, ht] at hb
          cases hb
        exact Layout.inLink_disjoint h.wide hne s i hin ⟨rfl, h₁, h₂⟩)
    rw [link_of_not_touched ht]
    unfold storedLink
    rw [hread]

/-- A flushed chain spells its members from the store alone, and still keeps its invariant. -/
theorem Spells.flush (h : c.Spells d s) (hs : s < d.stores.size) :
    Spell (storedLink (c.flush d s).2 s c.layout) 0 c.members.toList 0 ∧
      (c.flush d s).1.Spells (c.flush d s).2 s := by
  have hspell : Spell (storedLink (c.flush d s).2 s c.layout) 0 c.members.toList 0 :=
    h.links.congr fun id _ => h.storedLink_flush hs id
  refine ⟨hspell, ⟨h.wide, h.nodup, h.pos, h.fits, ?_, ?_⟩⟩
  · refine hspell.congr fun id _ => ?_
    rw [flush_fst, link_of_not_touched (by simp)]
  · intro id b hb
    simp [flush_fst] at hb

/-! ## Reading the chain back -/

/-- Walking a stored chain of distinct ids up to `latest` gathers exactly its members. -/
theorem walk_of_spell {d : Disk} {s : Nat} {l : Layout} {latest : Nat} :
    ∀ (ms : List Nat) (a fuel : Nat) (acc : Array Nat), Spell (storedLink d s l) a ms 0 →
      ms.Nodup → (∀ m ∈ ms, 0 < m ∧ m ≤ latest) → (∀ m ∈ ms, m ∉ acc.toList) → ms.length < fuel →
      FreeChain.walk d s l latest fuel (storedLink d s l a) acc = .ok (acc ++ ms.toArray) := by
  intro ms
  induction ms with
  | nil =>
    intro a fuel acc h _ _ _ hfuel
    obtain ⟨fuel, rfl⟩ : ∃ f, fuel = f + 1 := ⟨fuel - 1, by simp at hfuel; omega⟩
    simp [FreeChain.walk, show storedLink d s l a = 0 from h]
  | cons m ms ih =>
    intro a fuel acc h hnd hrange hacc hfuel
    obtain ⟨fuel, rfl⟩ : ∃ f, fuel = f + 1 := ⟨fuel - 1, by simp at hfuel; omega⟩
    obtain ⟨hpos, hle⟩ := hrange m List.mem_cons_self
    have hnot : acc.contains m = false := by
      simpa using hacc m List.mem_cons_self
    have hstep := ih m fuel (acc.push m) h.2 (List.nodup_cons.mp hnd).2
      (fun x hx => hrange x (List.mem_cons_of_mem m hx))
      (fun x hx hxa => by
        simp only [Array.toList_push, List.mem_append, List.mem_singleton] at hxa
        rcases hxa with hxa | rfl
        · exact hacc x (List.mem_cons_of_mem m hx) hxa
        · exact (List.nodup_cons.mp hnd).1 hx)
      (by simp at hfuel; omega)
    rw [show storedLink d s l a = m from h.1, FreeChain.walk]
    simp only [show (m == 0) = false by simpa using Nat.ne_of_gt hpos, Bool.false_eq_true, if_false,
      show decide (m > latest) = false by simpa using hle, hnot, Bool.or_false,
      LinkSlot.value_next_load, hstep]
    simp

/-- Reading back a stored chain that spells distinct positive ids up to `latest` gives exactly
those ids, and reports no corruption. -/
theorem open_of_spell {d : Disk} {s : Nat} {l : Layout} {latest : Nat} {ms : List Nat}
    (h : Spell (storedLink d s l) 0 ms 0) (hnd : ms.Nodup) (hrange : ∀ m ∈ ms, 0 < m ∧ m ≤ latest)
    (hl : 1 ≤ l.capacity) : FreeChain.open d s l latest = .ok ⟨l, ms.toArray, ∅⟩ := by
  have hnd0 : (0 :: ms).Nodup := List.nodup_cons.mpr ⟨fun h0 => by have := (hrange 0 h0).1; omega, hnd⟩
  have hlen := h.length_le_size hnd0 (fun m hm => (hrange m hm).1) hl
  have hwalk := walk_of_spell ms 0 (d.size s + 2) #[] h hnd hrange (by simp) (by omega)
  simp only [FreeChain.open, LinkSlot.value_next_load, hwalk]
  simp

/-- What a walk that succeeds gathers: new distinct ids up to `latest`, which the links spell
from `a` either down to 0 or for as long as the fuel lasts. -/
theorem walk_ok {d : Disk} {s : Nat} {l : Layout} {latest : Nat} :
    ∀ (fuel a : Nat) (acc res : Array Nat),
      FreeChain.walk d s l latest fuel (storedLink d s l a) acc = .ok res →
      ∃ ms : List Nat, res = acc ++ ms.toArray ∧ ms.Nodup ∧
        (∀ m ∈ ms, 0 < m ∧ m ≤ latest ∧ m ∉ acc.toList) ∧
        (Spell (storedLink d s l) a ms 0 ∨ ms.length = fuel ∧ ∃ b, Spell (storedLink d s l) a ms b) := by
  intro fuel
  induction fuel with
  | zero =>
    intro a acc res h
    simp only [FreeChain.walk, Except.ok.injEq] at h
    subst h
    exact ⟨[], by simp, List.nodup_nil, by simp, .inr ⟨rfl, _, rfl⟩⟩
  | succ fuel ih =>
    intro a acc res h
    generalize hm : storedLink d s l a = m at h
    simp only [FreeChain.walk, LinkSlot.value_next_load] at h
    split at h
    · next h0 =>
      simp only [Except.ok.injEq] at h
      subst h
      exact ⟨[], by simp, List.nodup_nil, by simp, .inl (hm.trans (by simpa using h0))⟩
    split at h
    · cases h
    next h0 hbad =>
    have hpos : 0 < m := Nat.pos_of_ne_zero (by simpa using h0)
    have hle : m ≤ latest := by simp at hbad; omega
    have hnew : m ∉ acc.toList := by simp at hbad; simpa using hbad.2
    obtain ⟨ms, rfl, hnd, hrange, hspell⟩ := ih _ _ _ h
    -- the id just visited leads the rest of the walk
    refine ⟨m :: ms, by simp, ?_, ?_, ?_⟩
    · exact List.nodup_cons.mpr ⟨fun hm => (hrange _ hm).2.2 (by simp), hnd⟩
    · intro m hm
      rcases List.mem_cons.mp hm with rfl | hm
      · exact ⟨hpos, hle, hnew⟩
      · obtain ⟨h₁, h₂, h₃⟩ := hrange m hm
        exact ⟨h₁, h₂, fun hacc => h₃ (by simp [hacc])⟩
    · rcases hspell with hspell | ⟨hlen, b, hspell⟩
      · exact .inl ⟨hm, hspell⟩
      · exact .inr ⟨by simp [hlen], b, hm, hspell⟩

/-- A chain read back from a store is the one its links spell from slot 0 down to 0: distinct
positive ids up to `latest`, with nothing touched. The walk cannot run out of fuel, as a
longer walk would not fit in the store. -/
theorem open_ok {d : Disk} {s : Nat} {l : Layout} {latest : Nat} {c : FreeChain} (hl : 1 ≤ l.capacity)
    (h : FreeChain.open d s l latest = .ok c) :
    ∃ ms : List Nat, c = ⟨l, ms.toArray, ∅⟩ ∧ Spell (storedLink d s l) 0 ms 0 ∧ ms.Nodup ∧
      ∀ m ∈ ms, 0 < m ∧ m ≤ latest := by
  simp only [FreeChain.open, LinkSlot.value_next_load] at h
  cases hw : FreeChain.walk d s l latest (d.size s + 2) (storedLink d s l 0) #[] with
  | error e => simp [hw] at h
  | ok res =>
    simp only [hw] at h
    cases h
    obtain ⟨ms, rfl, hnd, hrange, hspell⟩ := walk_ok _ _ _ _ hw
    have hpos : ∀ m ∈ ms, 0 < m := fun m hm => (hrange m hm).1
    have hnd0 : (0 :: ms).Nodup := List.nodup_cons.mpr ⟨fun h0 => by have := hpos 0 h0; omega, hnd⟩
    rcases hspell with hspell | ⟨hlen, b, hspell⟩
    · exact ⟨ms, by simp, hspell, hnd, fun m hm => ⟨(hrange m hm).1, (hrange m hm).2.1⟩⟩
    · have := hspell.length_le_size hnd0 hpos hl
      omega

/-- A chain read back from a store keeps the invariant on it. -/
theorem Spells.of_open {d : Disk} {s : Nat} {l : Layout} {latest : Nat} {c : FreeChain}
    (hwide : 8 ≤ l.capacity) (hlatest : latest < Nat.pow 256 8) (h : FreeChain.open d s l latest = .ok c) :
    c.Spells d s ∧ c.layout = l ∧ c.touched = ∅ ∧ ∀ m ∈ c.members.toList, m ≤ latest := by
  obtain ⟨ms, rfl, hspell, hnd, hrange⟩ := open_ok (by omega) h
  have hmem : ∀ m, m ∈ (⟨l, ms.toArray, ∅⟩ : FreeChain).members.toList ↔ m ∈ ms := by simp
  refine ⟨⟨hwide, by simpa using hnd, fun m hm => (hrange m ((hmem m).mp hm)).1,
    fun m hm => Nat.lt_of_le_of_lt (hrange m ((hmem m).mp hm)).2 hlatest, ?_, ?_⟩,
    rfl, rfl, fun m hm => (hrange m ((hmem m).mp hm)).2⟩
  · refine (by simpa using hspell : Spell (storedLink d s l) 0 ms 0).congr fun id _ => ?_
    exact link_of_not_touched (by simp)
  · intro id b hb
    simp at hb

end FreeChain

end ColumnDb.Slot
