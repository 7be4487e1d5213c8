import Mathlib
import ColumnDb.Proofs.Cell

/-!
# Dirty tracking over runs of calls

A window, and a cell, which is a window holding one number's encoding, caches a run of bytes of
a store. Whatever calls a program makes on it, updates or sets and flushes in any order, four
things hold (`units_track_their_bytes`, stated by `TracksBytes`):

* a flush writes the window to the store exactly when it is dirty;
* the window is dirty exactly when it was made anew and has not been flushed since, or some
  call since the last flush changed its bytes: dirtiness compares bytes, so setting a cell to its
  own number keeps it clean, while changing it and changing it back leaves it dirty;
* after a flush the store holds the window's bytes in its place;
* no byte of the store outside that place ever changes.

Both kinds of unit obey the same laws for one call (`CallLaws`): a flush writes the window back
when it is dirty and cleans it, and any other call leaves the store alone and marks the window
dirty when it was dirty or its bytes change. The four facts follow from the laws alone
(`CallLaws.tracks`), by induction over the run: the window keeps its place and stays true to the
store at every point (`CallLaws.run_true`), and dirtiness is read from the last call back
(`CallLaws.dirty_iff`). A cell obeys the laws through `Cell.window`, since its bytes are its
number's encoding and distinct numbers that fit have distinct encodings.
-/

set_option autoImplicit false

namespace ColumnDb.Slot

open ColumnDb.Disk ColumnDb.Bytes

/-! ## Splitting a run at a call -/

/-- A call in a run that ends with `x` is that last call, or a call of the run before it. -/
theorem append_singleton_eq_append_cons {α : Type} {xs pre post : List α} {x y : α} :
    xs ++ [x] = pre ++ y :: post ↔ (post = [] ∧ pre = xs ∧ y = x) ∨
      ∃ post', post = post' ++ [x] ∧ xs = pre ++ y :: post' := by
  rcases List.eq_nil_or_concat post with rfl | ⟨post', z, rfl⟩
  · rw [List.append_singleton_inj]
    constructor
    · rintro ⟨rfl, rfl⟩
      exact .inl ⟨rfl, rfl, rfl⟩
    · rintro (⟨-, rfl, rfl⟩ | ⟨p, hp, -⟩)
      · exact ⟨rfl, rfl⟩
      · simp at hp
  · rw [List.concat_eq_append, ← List.cons_append, ← List.append_assoc, List.append_singleton_inj]
    constructor
    · rintro ⟨rfl, rfl⟩
      exact .inr ⟨post', rfl, rfl⟩
    · rintro (⟨h, -⟩ | ⟨p, hp, rfl⟩)
      · simp at h
      · obtain ⟨rfl, rfl⟩ := List.append_singleton_inj.mp hp
        exact ⟨rfl, rfl⟩

/-- Some call after the last flush of `calls` changed the bytes: `bytesAfter pre` are the bytes
after the calls `pre`. -/
def ChangedSinceFlush {C : Type} (isFlush : C → Bool) (bytesAfter : List C → List UInt8) (calls : List C) : Prop :=
  ∃ pre c post, calls = pre ++ c :: post ∧ isFlush c = false ∧ (∀ c' ∈ post, isFlush c' = false) ∧
    bytesAfter (pre ++ [c]) ≠ bytesAfter pre

section Changed

variable {C : Type} {isFlush : C → Bool} {bytesAfter : List C → List UInt8} {calls : List C} {c : C}

theorem changedSinceFlush_nil : ¬ ChangedSinceFlush isFlush bytesAfter [] := by
  rintro ⟨pre, c, post, h, -⟩
  simp at h

/-- A flush forgets every change before it. -/
theorem not_changedSinceFlush_flush (hc : isFlush c = true) :
    ¬ ChangedSinceFlush isFlush bytesAfter (calls ++ [c]) := by
  rintro ⟨pre, c', post, h, hc', hpost, -⟩
  rcases append_singleton_eq_append_cons.mp h with ⟨-, -, rfl⟩ | ⟨post', rfl, -⟩
  · rw [hc] at hc'
    cases hc'
  · rw [hpost c (by simp)] at hc
    cases hc

/-- After any other call, a change since the last flush is one before the call, or the call's
own. -/
theorem changedSinceFlush_put (hc : isFlush c = false) :
    ChangedSinceFlush isFlush bytesAfter (calls ++ [c]) ↔
      ChangedSinceFlush isFlush bytesAfter calls ∨ bytesAfter (calls ++ [c]) ≠ bytesAfter calls := by
  constructor
  · rintro ⟨pre, c', post, h, hc', hpost, hne⟩
    rcases append_singleton_eq_append_cons.mp h with ⟨-, rfl, rfl⟩ | ⟨post', rfl, rfl⟩
    · exact .inr hne
    · exact .inl ⟨pre, c', post', rfl, hc', fun c'' hc'' => hpost c'' (by simp [hc'']), hne⟩
  · rintro (⟨pre, c', post, rfl, hc', hpost, hne⟩ | hne)
    · refine ⟨pre, c', post ++ [c], by simp, hc', fun c'' hc'' => ?_, hne⟩
      rcases List.mem_append.mp hc'' with h | h
      · exact hpost c'' h
      · rw [List.mem_singleton.mp h]
        exact hc
    · exact ⟨calls, c, [], by simp, hc, by simp, hne⟩

end Changed

/-! ## What a run of calls should do -/

/-- What a run of calls on a unit caching the window of store `s` at `off`, of `cap` bytes, does;
`view` shows the unit's window and `run pre` is the unit and the store after the calls `pre`. -/
structure TracksBytes {U C : Type} (s off cap : Nat) (created : Bool) (isFlush : C → Bool) (view : U → Window)
    (run : List C → U × Disk) (calls : List C) : Prop where
  /-- A flush writes the window to the store exactly when it is dirty. -/
  writes : ∀ pre c post, calls = pre ++ c :: post → isFlush c = true →
    (run (pre ++ [c])).2 =
      if (view (run pre).1).dirty then (run pre).2.write s off (view (run pre).1).bytes else (run pre).2
  /-- The window is dirty exactly when it was made anew and no flush came since, or a call since
  the last flush changed its bytes. -/
  dirty_iff : (view (run calls).1).dirty = true ↔ (created = true ∧ ∀ c ∈ calls, isFlush c = false) ∨
    ChangedSinceFlush isFlush (fun pre => (view (run pre).1).bytes) calls
  /-- After a flush the store holds the window's bytes in its place. -/
  flushed : ∀ pre c post, calls = pre ++ c :: post → isFlush c = true →
    (run (pre ++ [c])).2.read s off cap = (view (run (pre ++ [c])).1).bytes
  /-- No byte outside the window's place changes. -/
  within : Disk.Within (run []).2 (run calls).2 fun t i => t = s ∧ off ≤ i ∧ i < off + cap

/-- What one call does to a unit caching a window of store `s`, seen through `view`, while the
unit stays `good`: a flush writes the window back exactly when it is dirty and cleans it; any
other call leaves the store alone, keeps the window's place, and leaves it dirty exactly when it
was dirty or its bytes change. -/
structure CallLaws {U C : Type} (s : Nat) (good : U → Prop) (view : U → Window) (isFlush : C → Bool)
    (step : U × Disk → C → U × Disk) : Prop where
  keeps : ∀ u d c, good u → good (step (u, d) c).1
  fits : ∀ u, good u → (view u).Fits
  flush : ∀ u d c, good u → isFlush c = true →
    view (step (u, d) c).1 = { view u with dirty := false } ∧ (step (u, d) c).2 = ((view u).flush d s).2
  put : ∀ u d c, good u → isFlush c = false →
    (step (u, d) c).2 = d ∧ (view (step (u, d) c).1).offset = (view u).offset ∧
      (view (step (u, d) c).1).capacity = (view u).capacity ∧
      ((view (step (u, d) c).1).dirty = true ↔ (view u).dirty = true ∨ (view (step (u, d) c).1).bytes ≠ (view u).bytes)

namespace CallLaws

variable {U C : Type} {s : Nat} {good : U → Prop} {view : U → Window} {isFlush : C → Bool}
  {step : U × Disk → C → U × Disk}

/-- The bytes of store `s` in a window's place. -/
def Place (s : Nat) (w : Window) : Nat → Nat → Prop := fun t i => t = s ∧ w.offset ≤ i ∧ i < w.offset + w.capacity

/-! ### One call -/

section Step

variable (hl : CallLaws s good view isFlush step) {u : U} {d : Disk}
include hl

theorem place (hg : good u) (c : C) :
    (view (step (u, d) c).1).offset = (view u).offset ∧ (view (step (u, d) c).1).capacity = (view u).capacity := by
  cases hc : isFlush c
  · obtain ⟨-, hoff, hcap, -⟩ := hl.put u d c hg hc
    exact ⟨hoff, hcap⟩
  · rw [(hl.flush u d c hg hc).1]
    exact ⟨rfl, rfl⟩

/-- A call keeps the window true to the store: a flush writes what it holds, and any other call
that leaves it clean changed none of its bytes. -/
theorem trueTo (hg : good u) (ht : (view u).TrueTo d s) (hs : s < d.stores.size) (c : C) :
    (view (step (u, d) c).1).TrueTo (step (u, d) c).2 s := by
  cases hc : isFlush c
  · obtain ⟨hd, hoff, hcap, hdirty⟩ := hl.put u d c hg hc
    intro hclean
    have hkeep : ¬((view u).dirty = true ∨ (view (step (u, d) c).1).bytes ≠ (view u).bytes) := by
      rw [← hdirty, hclean]
      simp
    simp only [not_or, not_not] at hkeep
    rw [hd, hoff, hcap, hkeep.2]
    exact ht (by simpa using hkeep.1)
  · obtain ⟨hv, hd⟩ := hl.flush u d c hg hc
    rw [hv, hd]
    intro _
    exact Window.read_flush hs (hl.fits u hg) ht

/-- A call changes the store only in the window's place. -/
theorem within (hg : good u) (c : C) : Disk.Within d (step (u, d) c).2 (Place s (view u)) := by
  cases hc : isFlush c
  · rw [(hl.put u d c hg hc).1]
    exact Disk.Within.refl d _
  · rw [(hl.flush u d c hg hc).2]
    exact Window.within_flush _ d s (hl.fits u hg)

end Step

/-! ### Whole runs -/

variable (hl : CallLaws s good view isFlush step)
include hl

theorem good_run {u : U} {d : Disk} (hg : good u) : ∀ pre : List C, good (pre.foldl step (u, d)).1 := by
  intro pre
  induction pre generalizing u d with
  | nil => exact hg
  | cons c pre ih => exact ih (hl.keeps u d c hg)

/-- Along a run the unit stays good, its window keeps its place and stays true to the store,
and the store changes only in that place. -/
theorem run_true : ∀ (pre : List C) (u : U) (d : Disk), good u → (view u).TrueTo d s → s < d.stores.size →
    good (pre.foldl step (u, d)).1 ∧ (view (pre.foldl step (u, d)).1).offset = (view u).offset ∧
      (view (pre.foldl step (u, d)).1).capacity = (view u).capacity ∧
      (view (pre.foldl step (u, d)).1).TrueTo (pre.foldl step (u, d)).2 s ∧
      Disk.Within d (pre.foldl step (u, d)).2 (Place s (view u))
  | [], _, d, hg, ht, _ => ⟨hg, rfl, rfl, ht, Disk.Within.refl d _⟩
  | c :: pre, u, d, hg, ht, hs => by
    have hw := hl.within hg c (d := d)
    obtain ⟨hg', hoff, hcap, ht', hw'⟩ := run_true pre (step (u, d) c).1 (step (u, d) c).2 (hl.keeps u d c hg)
      (hl.trueTo hg ht hs c) (hw.1 ▸ hs)
    obtain ⟨hoff₁, hcap₁⟩ := hl.place hg c (d := d)
    have hplace : Place s (view (step (u, d) c).1) = Place s (view u) := by
      unfold Place
      rw [hoff₁, hcap₁]
    rw [hplace] at hw'
    refine ⟨hg', hoff.trans hoff₁, hcap.trans hcap₁, ht', (hw.trans hw').mono fun t i h => ?_⟩
    rcases h with h | h <;> exact h

/-- Dirtiness read from the last call back: a flush cleans the window, and any other call leaves
it dirty exactly when it was, or when the call changed its bytes. -/
theorem dirty_iff {u₀ : U} {d₀ : Disk} (hg : good u₀) (calls : List C) :
    (view (calls.foldl step (u₀, d₀)).1).dirty = true ↔ ((view u₀).dirty = true ∧ ∀ c ∈ calls, isFlush c = false) ∨
      ChangedSinceFlush isFlush (fun pre => (view (pre.foldl step (u₀, d₀)).1).bytes) calls := by
  induction calls using List.reverseRecOn with
  | nil => simp [changedSinceFlush_nil]
  | append_singleton calls c ih =>
    have hgood := hl.good_run hg calls (d := d₀)
    rw [List.foldl_concat]
    cases hc : isFlush c
    · -- an update or a set: dirty when it was, or when this call changed the bytes
      obtain ⟨-, -, -, hdirty⟩ := hl.put _ (calls.foldl step (u₀, d₀)).2 c hgood hc
      rw [Prod.mk.eta] at hdirty
      rw [hdirty, ih, changedSinceFlush_put hc, List.foldl_concat]
      simp only [List.mem_append, List.mem_singleton]
      constructor
      · rintro ((⟨hd, hall⟩ | hch) | hne)
        · exact .inl ⟨hd, fun c' hc' => by rcases hc' with hc' | rfl; exacts [hall c' hc', hc]⟩
        · exact .inr (.inl hch)
        · exact .inr (.inr hne)
      · rintro (⟨hd, hall⟩ | hch | hne)
        · exact .inl (.inl ⟨hd, fun c' hc' => hall c' (.inl hc')⟩)
        · exact .inl (.inr hch)
        · exact .inr hne
    · -- a flush: clean, and no change survives it
      have hclean := (hl.flush _ (calls.foldl step (u₀, d₀)).2 c hgood hc).1
      rw [Prod.mk.eta] at hclean
      rw [hclean]
      simp only [Bool.false_eq_true, false_iff, not_or, not_and]
      exact ⟨fun _ hall => by simpa [hc] using hall c (by simp), not_changedSinceFlush_flush hc⟩

/-- A unit that obeys the laws for one call, started good and true to its store, does over
every run of calls what `TracksBytes` says. -/
theorem tracks {u₀ : U} {d₀ : Disk} {off cap : Nat} {created : Bool} (hg : good u₀) (ht : (view u₀).TrueTo d₀ s)
    (hs : s < d₀.stores.size) (hoff : (view u₀).offset = off) (hcap : (view u₀).capacity = cap)
    (hdirty : (view u₀).dirty = created) (calls : List C) :
    TracksBytes s off cap created isFlush view (fun pre => pre.foldl step (u₀, d₀)) calls where
  writes pre c _ _ hc := by
    obtain ⟨hg', hoff', -, -, -⟩ := hl.run_true pre u₀ d₀ hg ht hs
    rw [List.foldl_concat]
    generalize pre.foldl step (u₀, d₀) = r at hg' hoff' ⊢
    obtain ⟨u, d⟩ := r
    rw [(hl.flush u d c hg' hc).2, Window.flush_snd, ← hoff, ← hoff']
  dirty_iff := hdirty ▸ hl.dirty_iff hg calls
  flushed pre c _ _ hc := by
    obtain ⟨hg', hoff', hcap', ht', hw⟩ := hl.run_true pre u₀ d₀ hg ht hs
    rw [List.foldl_concat]
    generalize pre.foldl step (u₀, d₀) = r at hg' hoff' hcap' ht' hw ⊢
    obtain ⟨u, d⟩ := r
    obtain ⟨hv, hd⟩ := hl.flush u d c hg' hc
    rw [hv, hd, ← hoff, ← hcap, ← hoff', ← hcap']
    exact Window.read_flush (hw.1 ▸ hs) (hl.fits u hg') ht'
  within := by
    have hw := (hl.run_true calls u₀ d₀ hg ht hs).2.2.2.2
    unfold Place at hw
    rw [hoff, hcap] at hw
    exact hw

end CallLaws

/-! ## Windows -/

namespace Window

/-- A call on a window: replace its leading bytes, or write it back to its store. -/
inductive Call where
  | update (bs : List UInt8)
  | flush
deriving DecidableEq, Repr

/-- Whether a call writes the window back. -/
def Call.isFlush : Call → Bool
  | .update _ => false
  | .flush => true

/-- One call on a window over store `s`; an update the window refuses leaves it as it was. -/
def call (s : Nat) (st : Window × Disk) : Call → Window × Disk
  | .update bs =>
    match st.1.update bs with
    | .ok w => (w, st.2)
    | .error _ => st
  | .flush => st.1.flush st.2 s

/-- Calls one after another. -/
def runCalls (s : Nat) (calls : List Call) (st : Window × Disk) : Window × Disk := calls.foldl (call s) st

/-- A window made anew, or read from its place in the store. -/
def start (created : Bool) (d : Disk) (s off cap : Nat) : Window :=
  if created then create off cap else load d s off cap

/-- An update leaves a window dirty exactly when it was, or when the update changes its bytes. -/
theorem dirty_update {w w' : Window} {bs : List UInt8} (h : w.update bs = .ok w') :
    w'.dirty = true ↔ w.dirty = true ∨ w'.bytes ≠ w.bytes := by
  unfold update at h
  split at h
  · cases h
  · split at h
    · cases h
      simp
    · next hne =>
      cases h
      refine ⟨fun _ => .inr fun heq => hne ?_, fun _ => rfl⟩
      -- bytes that begin with the update already held it
      have htake : w.bytes.take bs.length = bs := by
        rw [← heq]
        simp
      exact beq_iff_eq.mpr htake

theorem callLaws (s : Nat) : CallLaws s Window.Fits id Call.isFlush (call s) where
  keeps w d c hf := by
    cases c with
    | update bs =>
      simp only [call]
      split
      · next w' hw => exact (update_ok hw).2.2.1 hf
      · exact hf
    | flush =>
      simp only [call]
      rw [flush_fst]
      exact hf
  fits _ hf := hf
  flush w d c _ hc := by
    cases c with
    | update bs => cases hc
    | flush => exact ⟨flush_fst w d s, rfl⟩
  put w d c _ hc := by
    cases c with
    | flush => cases hc
    | update bs =>
      simp only [call, id]
      split
      · next w' hw =>
        obtain ⟨hoff, hcap, -, -, -⟩ := update_ok hw
        exact ⟨rfl, hoff, hcap, dirty_update hw⟩
      · exact ⟨rfl, rfl, rfl, by simp⟩

/-- A window starts in its place, dirty exactly when made anew. -/
theorem start_fields (created : Bool) (d : Disk) (s off cap : Nat) :
    (start created d s off cap).offset = off ∧ (start created d s off cap).capacity = cap ∧
      (start created d s off cap).dirty = created := by
  cases created <;> exact ⟨rfl, rfl, rfl⟩

theorem fits_start (created : Bool) (d : Disk) (s off cap : Nat) : (start created d s off cap).Fits := by
  cases created
  · exact fits_ofBytes _ _ _
  · exact fits_create _ _

theorem trueTo_start (created : Bool) (d : Disk) (s off cap : Nat) : (start created d s off cap).TrueTo d s := by
  cases created
  · intro _
    simp [start, load, ofBytes, takePadded_of_length (Disk.length_read d s off cap)]
  · intro h
    cases h

end Window

/-! ## Cells -/

namespace Cell

/-- A call on a cell: set its number, or write it back to its store. -/
inductive Call where
  | set (v : Nat)
  | flush
deriving DecidableEq, Repr

/-- Whether a call writes the cell back. -/
def Call.isFlush : Call → Bool
  | .set _ => false
  | .flush => true

/-- One call on a cell over store `s`. -/
def call (s : Nat) (st : Cell × Disk) : Call → Cell × Disk
  | .set v => (st.1.set v, st.2)
  | .flush => st.1.flush st.2 s

/-- Calls one after another. -/
def runCalls (s : Nat) (calls : List Call) (st : Cell × Disk) : Cell × Disk := calls.foldl (call s) st

/-- A cell made anew with a number, or read from its place in the store. -/
def start (created : Bool) (d : Disk) (s off w v : Nat) : Cell :=
  if created then create off w v else load d s off w

/-- The cell as the window it caches: the bytes of its number. -/
def window (c : Cell) : Window := ⟨c.offset, c.width, writeLE c.width c.value, c.dirty⟩

/-- Bytes read as a number and written back at their own width are the same bytes. -/
theorem writeLE_readLE : ∀ bs : List UInt8, writeLE bs.length (readLE bs) = bs
  | [] => rfl
  | b :: bs => by
    have hb := b.toNat_lt
    have hmod : (b.toNat + 256 * readLE bs) % 256 = b.toNat := by omega
    have hdiv : (b.toNat + 256 * readLE bs) / 256 = readLE bs := by omega
    simp only [List.length_cons, writeLE, readLE, hmod, hdiv, writeLE_readLE bs, UInt8.ofNat_toNat]

/-- Numbers that fit a width have distinct bytes. -/
theorem writeLE_inj {w a b : Nat} (ha : a < Nat.pow 256 w) (hb : b < Nat.pow 256 w)
    (h : writeLE w a = writeLE w b) : a = b := by
  have := congrArg readLE h
  rwa [readLE_writeLE, readLE_writeLE, Nat.mod_eq_of_lt ha, Nat.mod_eq_of_lt hb] at this

/-- A set leaves a cell dirty exactly when it was, or when the set changes its bytes: a number
already held changes nothing. -/
theorem dirty_set_iff {c : Cell} (hf : c.Fits) (v : Nat) :
    (c.set v).dirty = true ↔ c.dirty = true ∨ (c.set v).window.bytes ≠ c.window.bytes := by
  dsimp only [set]
  split
  · simp
  · next hne =>
    refine ⟨fun _ => .inr fun heq => hne (beq_iff_eq.mpr ?_), fun _ => rfl⟩
    exact writeLE_inj (Nat.mod_lt _ (by rw [Nat.pow_eq]; positivity)) hf heq

theorem callLaws (s : Nat) : CallLaws s Cell.Fits window Call.isFlush (call s) where
  keeps c d k hf := by
    cases k with
    | set v => exact fits_set c v
    | flush =>
      simp only [call]
      rw [flush_fst]
      exact hf
  fits c _ := by simp [Window.Fits, window, writeLE_length]
  flush c d k _ hk := by
    cases k with
    | set v => cases hk
    | flush =>
      simp only [call]
      rw [flush_fst, flush_snd, Window.flush_snd]
      exact ⟨rfl, rfl⟩
  put c d k hf hk := by
    cases k with
    | flush => cases hk
    | set v => exact ⟨rfl, offset_set c v, width_set c v, dirty_set_iff hf v⟩

/-- A cell starts in its place, dirty exactly when made anew. -/
theorem start_fields (created : Bool) (d : Disk) (s off w v : Nat) :
    (start created d s off w v).window.offset = off ∧ (start created d s off w v).window.capacity = w ∧
      (start created d s off w v).window.dirty = created := by
  cases created <;> exact ⟨rfl, rfl, rfl⟩

theorem fits_start (created : Bool) (d : Disk) (s off w v : Nat) : (start created d s off w v).Fits := by
  cases created
  · exact fits_load d s off w
  · exact fits_create off w v

theorem trueTo_start (created : Bool) (d : Disk) (s off w v : Nat) :
    (start created d s off w v).window.TrueTo d s := by
  cases created
  · intro _
    have h := writeLE_readLE (d.read s off w)
    rw [Disk.length_read] at h
    simp [start, window, h]
  · intro h
    cases h

end Cell

/-! ## The claim for both kinds of unit -/

/-- Windows and cells track their bytes over every run of calls on a store: a flush writes the
unit to the store exactly when it is dirty; the unit is dirty exactly when it was made anew and
has not been flushed since, or some update or set since the last flush changed its bytes; after
a flush the store holds the unit's bytes in its place; and no byte of the store outside that
place ever changes. -/
theorem units_track_their_bytes {d : Disk} {s : Nat} (hs : s < d.stores.size) :
    (∀ (created : Bool) (off cap : Nat) (calls : List Window.Call),
      TracksBytes s off cap created Window.Call.isFlush id
        (fun pre => Window.runCalls s pre (Window.start created d s off cap, d)) calls) ∧
    (∀ (created : Bool) (off w v : Nat) (calls : List Cell.Call),
      TracksBytes s off w created Cell.Call.isFlush Cell.window
        (fun pre => Cell.runCalls s pre (Cell.start created d s off w v, d)) calls) := by
  refine ⟨fun created off cap calls => ?_, fun created off w v calls => ?_⟩
  · obtain ⟨hoff, hcap, hdirty⟩ := Window.start_fields created d s off cap
    exact (Window.callLaws s).tracks (Window.fits_start created d s off cap) (Window.trueTo_start created d s off cap)
      hs hoff hcap hdirty calls
  · obtain ⟨hoff, hcap, hdirty⟩ := Cell.start_fields created d s off w v
    exact (Cell.callLaws s).tracks (Cell.fits_start created d s off w v) (Cell.trueTo_start created d s off w v)
      hs hoff hcap hdirty calls

/-- Runs on one empty store: a window of six bytes made at offset 4, updated with two bytes and
flushed; and a cell of eight bytes read at offset 0, where it holds 0, set to 0, to 9 and back
to 0, then flushed. -/
theorem units_track_their_bytes_on_one_store :
    0 < ({ stores := #[ByteArray.empty] } : Disk).stores.size ∧
      TracksBytes 0 4 6 true Window.Call.isFlush id
        (fun pre => Window.runCalls 0 pre (Window.start true { stores := #[ByteArray.empty] } 0 4 6,
          { stores := #[ByteArray.empty] })) [.update [97, 98], .flush] ∧
      TracksBytes 0 0 8 false Cell.Call.isFlush Cell.window
        (fun pre => Cell.runCalls 0 pre (Cell.start false { stores := #[ByteArray.empty] } 0 0 8 0,
          { stores := #[ByteArray.empty] })) [.set 0, .set 9, .set 0, .flush] :=
  have hs : 0 < ({ stores := #[ByteArray.empty] } : Disk).stores.size := by decide
  ⟨hs, (units_track_their_bytes hs).1 true 4 6 _, (units_track_their_bytes hs).2 false 0 8 0 _⟩

end ColumnDb.Slot
