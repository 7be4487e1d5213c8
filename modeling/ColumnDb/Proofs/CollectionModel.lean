import Mathlib
import ColumnDb.Proofs.KeyRule
import ColumnDb.Proofs.ColumnModel

/-!
# Collections whose columns stand for models

A column serves rows and values (`Column.Serves`) when it can be searched and is a tree of its
kind holding the rows, or cannot and is a text file standing for a model whose texts are the
values. A collection stores rows and values (`Collection.Stores`) when each column serves its own,
the key column can be searched and each column is the first of its name: reading, searching and
selecting need no more.

A collection is tracked by column models (`Collection.Tracks`) when each column's store stands for
a model that its declaration describes, no two columns share a store, and the key names a column
that can be searched. Such a collection stores the rows and values of its models
(`Tracks.stores`).

Every write keeps it, when it answers and has room for what it writes (`CollectionEvent.Allowed`):
declaring a column whose files are new, inserting a row, setting a column on rows, deleting rows
and flushing (`CollectionEvent.tracks_run`); and so does every run of such calls
(`CollectionEvent.runEvents_tracks`). A new collection is tracked, so the columns of every
collection a run of writes builds serve their rows (`CollectionEvent.runEvents_stores`).

Each step rests on the column-store simulation: a write on one column runs on its store as the
column's model does and touches only its files (`ColumnStore.Tracks.insert`, `update`, `delete`,
`flush`), and the other columns, on other stores, keep standing for theirs
(`ColumnStore.Tracks.touches`). A declaration opens files on new, empty stores, which leaves every
store the columns lie on as it was.
-/

set_option autoImplicit false

namespace ColumnDb

open ColumnDb.Disk ColumnDb.Column ColumnDb.Tree ColumnDb.Blob ColumnDb.Slot

/-! ## Columns holding values -/

/-- A column serves the rows `R` and the values `v`: either it can be searched and is a tree of its
kind holding `R`, each id's value being the one `R` pairs with it, or it cannot and is a text file
standing for a model whose value at an id is its text. -/
def Column.Serves (col : Column) (d : Disk) (R : List (Nat × Value)) (v : Nat → Option Value) : Prop :=
  match col.store with
  | .ordered t => col.declared.isOrderable = true ∧ t.kind = col.declared.kind ∧ t.Rows d R ∧
      ∀ id, v id = R.lookup id
  | .text _ => col.declared.isOrderable = false ∧
      ∃ cm, ColumnStore.Tracks (d, col.store) cm ∧ ∀ id, v id = cm.value id

namespace Collection

variable {c : Collection} {d : Disk} {R : Nat → List (Nat × Value)} {V : Nat → Nat → Option Value}

/-- Each column `i` serves the rows `R i` and the values `V i`, the key column can be searched,
and each column is the first of its name. -/
structure Stores (c : Collection) (d : Disk) (R : Nat → List (Nat × Value)) (V : Nat → Nat → Option Value) :
    Prop where
  serves : ∀ i (col : Column), c.columns[i]? = some col → col.Serves d (R i) (V i)
  keyed : ∀ k (col : Column), c.keyIndex = some k → c.columns[k]? = some col → col.declared.isOrderable = true
  named : ∀ i (col : Column), c.columns[i]? = some col → c.position col.declared.name = some i

/-- A collection whose columns serve their rows holds its searchable columns' rows. -/
theorem Stores.indexes (h : c.Stores d R V) : c.Indexes d R := by
  refine ⟨fun i col hcol hord => ?_, h.keyed⟩
  have hs := h.serves i col hcol
  unfold Column.Serves at hs
  split at hs
  · rename_i t hst
    exact ⟨t, hst, hs.2.1, hs.2.2.1.lists⟩
  · rw [hs.1] at hord
    cases hord

end Collection

/-! ## Models a declaration describes -/

namespace Column.ColumnModel

/-- A model a declaration describes: a tree of the declared kind for a column that can be
searched, a text file for one that cannot. -/
def Describes : ColumnModel → ColumnDef → Prop
  | tree k _ _, d => d.isOrderable = true ∧ k = d.kind
  | text _ _, d => d.isOrderable = false

/-- The rows of a tree model, which searching a column answers; a text model is read by id. -/
def rows : ColumnModel → List (Nat × Value)
  | tree _ _ m => m.rows
  | text _ _ => []

variable {cm : ColumnModel} {d : ColumnDef}

theorem Describes.insert (h : cm.Describes d) (v : Value) (id? : Option Nat) : (cm.insert v id?).2.Describes d := by
  unfold ColumnModel.insert
  split
  · cases cm with
    | tree k cap m => exact h
    | text p m => exact h
  · exact h

theorem Describes.update (h : cm.Describes d) (x : Nat) (v : Value) : (cm.update x v).2.Describes d := by
  unfold ColumnModel.update
  split
  · cases cm with
    | tree k cap m => exact h
    | text p m => exact h
  · exact h

theorem Describes.delete (h : cm.Describes d) (x : Nat) : (cm.delete x).2.Describes d := by
  cases cm with
  | tree k cap m => exact h
  | text p m => exact h

end Column.ColumnModel

/-! ## Collections tracked by column models -/

namespace Collection

/-- A collection whose columns stand for models: each column's store stands for the model `M i`,
which its declaration describes; no two columns share a store; the key names a column that can
be searched; and each column is the first of its name. -/
structure Tracks (s : Disk × Collection) (M : Nat → ColumnModel) : Prop where
  tracks : ∀ i (col : Column), s.2.columns[i]? = some col → ColumnStore.Tracks (s.1, col.store) (M i)
  describes : ∀ i (col : Column), s.2.columns[i]? = some col → (M i).Describes col.declared
  apart : ∀ (i j : Nat) (col col' : Column), s.2.columns[i]? = some col → s.2.columns[j]? = some col' → i ≠ j →
    ∀ r ∈ col.store.sids, r ∉ col'.store.sids
  keyed : ∀ n, s.2.key = some n → ∃ (k : Nat) (col : Column), s.2.position n = some k ∧ s.2.columns[k]? = some col ∧
    col.declared.isOrderable = true
  named : ∀ i (col : Column), s.2.columns[i]? = some col → s.2.position col.declared.name = some i

variable {c : Collection} {d : Disk} {M : Nat → ColumnModel}

/-- A collection with no columns and no key is tracked by any models. -/
theorem tracks_empty (hcols : c.columns = #[]) (hkey : c.key = none) : Tracks (d, c) M where
  tracks i col h := by simp [hcols] at h
  describes i col h := by simp [hcols] at h
  apart i j col col' h := by simp [hcols] at h
  keyed n h := by simp [hkey] at h
  named i col h := by simp [hcols] at h

/-- The key column of a tracked collection can be searched. -/
theorem Tracks.keyIndex (h : Tracks (d, c) M) {k : Nat} {col : Column} (hk : c.keyIndex = some k)
    (hcol : c.columns[k]? = some col) : col.declared.isOrderable = true := by
  obtain ⟨n, hn, hpos⟩ := Option.bind_eq_some_iff.mp hk
  obtain ⟨k', col', hk', hcol', hord⟩ := h.keyed n hn
  rw [hpos] at hk'
  cases hk'
  rw [hcol] at hcol'
  cases hcol'
  exact hord

/-- A column standing for a model its declaration describes serves the model's rows and values. -/
theorem serves_of_tracks {col : Column} {cm : ColumnModel} (ht : ColumnStore.Tracks (d, col.store) cm)
    (hd : cm.Describes col.declared) : col.Serves d cm.rows cm.value := by
  unfold Column.Serves
  split
  next t hst =>
    rw [hst] at ht
    cases cm with
    | tree k cap m =>
      obtain ⟨hR, -, hk, -⟩ := ht
      exact ⟨hd.1, hk.trans hd.2, hR, fun _ => rfl⟩
    | text p m => exact ht.elim
  next t hst =>
    rw [hst] at ht
    cases cm with
    | tree k cap m => exact ht.elim
    | text p m => exact ⟨hd, _, hst ▸ ht, fun _ => rfl⟩

/-- A tracked collection stores the rows and values of its models. -/
theorem Tracks.stores (h : Tracks (d, c) M) : c.Stores d (fun i => (M i).rows) (fun i => (M i).value) :=
  ⟨fun i col hcol => serves_of_tracks (h.tracks i col hcol) (h.describes i col hcol),
    fun _ _ hk hcol => h.keyIndex hk hcol, h.named⟩

/-! ## One column given a new store -/

theorem getElem?_setStore {i : Nat} {col : Column} (hcol : c.columns[i]? = some col) (st : ColumnStore) (j : Nat) :
    (c.columns.set! i { col with store := st })[j]? = if i = j then some { col with store := st } else c.columns[j]? := by
  rw [Array.set!_eq_setIfInBounds, Array.getElem?_setIfInBounds]
  by_cases hij : i = j
  · subst hij
    rw [if_pos rfl, if_pos (Array.getElem?_eq_some_iff.mp hcol).1, if_pos rfl]
  · rw [if_neg hij, if_neg hij]

/-- After a column is given a new store, each column agrees with the one that stood there in all
that the new store leaves as it was. -/
theorem agrees_of_setStore {β : Type} (f : Column → β) {i : Nat} {col : Column} (hcol : c.columns[i]? = some col)
    (st : ColumnStore) (hf : f { col with store := st } = f col) {j : Nat} {col' : Column}
    (hj : (c.columns.set! i { col with store := st })[j]? = some col') :
    ∃ col₀ : Column, c.columns[j]? = some col₀ ∧ f col' = f col₀ := by
  rw [getElem?_setStore hcol] at hj
  split_ifs at hj with hij
  · subst hij
    cases hj
    exact ⟨col, hcol, hf⟩
  · exact ⟨col', hj, rfl⟩

/-- After a column is given a new store, each column has the declaration it had. -/
theorem declared_of_setStore {i : Nat} {col : Column} (hcol : c.columns[i]? = some col) (st : ColumnStore)
    {j : Nat} {col' : Column} (hj : (c.columns.set! i { col with store := st })[j]? = some col') :
    ∃ col₀ : Column, c.columns[j]? = some col₀ ∧ col'.declared = col₀.declared :=
  agrees_of_setStore Column.declared hcol st rfl hj

/-- Giving a column a store on the same files, standing for a model its declaration describes,
after writes to those files alone, keeps the collection tracked. -/
theorem Tracks.setStore (h : Tracks (d, c) M) {i : Nat} {col : Column} (hcol : c.columns[i]? = some col)
    {d' : Disk} {st : ColumnStore} {cm : ColumnModel} (ht : ColumnStore.Tracks (d', st) cm)
    (hd : cm.Describes col.declared) (hsids : st.sids = col.store.sids)
    (hw : Disk.Touches (· ∈ col.store.sids) d d') :
    Tracks (d', { c with columns := c.columns.set! i { col with store := st } }) (Function.update M i cm) := by
  have hsch := schema_setStore hcol st
  -- the other columns lie on other stores, which the writes leave alone
  have hother : ∀ j (col' : Column), c.columns[j]? = some col' → i ≠ j →
      ColumnStore.Tracks (d', col'.store) (M j) := fun j col' hj hij =>
    (h.tracks j col' hj).touches hw fun r hr => h.apart i j col col' hcol hj hij r hr
  refine ⟨fun j col' hj => ?_, fun j col' hj => ?_, fun j j' col₁ col₂ hj hj' hne => ?_, fun n hn => ?_,
    fun j col' hj => ?_⟩
  · rw [getElem?_setStore hcol] at hj
    split_ifs at hj with hij
    · subst hij
      cases hj
      rw [Function.update_self]
      exact ht
    · rw [Function.update_of_ne (Ne.symm hij)]
      exact hother j col' hj hij
  · rw [getElem?_setStore hcol] at hj
    split_ifs at hj with hij
    · subst hij
      cases hj
      rw [Function.update_self]
      exact hd
    · rw [Function.update_of_ne (Ne.symm hij)]
      exact h.describes j col' hj
  · -- the new store lies on the files the old one did
    obtain ⟨c₁, h₁, e₁⟩ := agrees_of_setStore (·.store.sids) hcol st hsids hj
    obtain ⟨c₂, h₂, e₂⟩ := agrees_of_setStore (·.store.sids) hcol st hsids hj'
    rw [e₁, e₂]
    exact h.apart j j' c₁ c₂ h₁ h₂ hne
  · obtain ⟨k, col₀, hk, hk₀, hord⟩ := h.keyed n hn
    refine ⟨k, { col₀ with store := if i = k then st else col₀.store }, by rwa [position_of_schema hsch], ?_, hord⟩
    rw [getElem?_setStore hcol]
    split_ifs with hik
    · subst hik
      rw [hcol] at hk₀
      cases hk₀
      rfl
    · exact hk₀
  · obtain ⟨col₀, hj₀, hdecl⟩ := declared_of_setStore hcol st hj
    rw [hdecl, position_of_schema hsch]
    exact h.named j col₀ hj₀

/-! ## Running on a column -/

/-- Running an operation on a column runs it on the column's store and gives the column the store
it ends with, whether it answers or fails. -/
theorem finalState_onColumn {α : Type} {m : StoreOp α} {i : Nat} {col : Column} (hcol : c.columns[i]? = some col) :
    finalState (onColumn i m (d, c)) = ((finalState (m (d, col.store))).1,
      { c with columns := c.columns.set! i { col with store := (finalState (m (d, col.store))).2 } }) := by
  simp only [onColumn, EStateM.run, hcol]
  split <;> next hm => rw [hm]; rfl

/-- A column named in faults runs as the column does: it ends in the same state, and answers what
the column answers. -/
theorem finalState_onNamedColumn {α : Type} (i : Nat) (m : StoreOp α) (s : Disk × Collection) :
    finalState (onNamedColumn i m s) = finalState (onColumn i m s) := by
  simp only [onNamedColumn, bind, EStateM.bind, get, getThe, MonadStateOf.get, EStateM.get, tryCatch, tryCatchThe,
    MonadExceptOf.tryCatch, EStateM.tryCatch]
  cases onColumn i m s <;> rfl

theorem onColumn_of_onNamedColumn {α : Type} {i : Nat} {m : StoreOp α} {s s' : Disk × Collection} {a : α}
    (h : onNamedColumn i m s = .ok a s') : onColumn i m s = .ok a s' := by
  simp only [onNamedColumn, bind, EStateM.bind, get, getThe, MonadStateOf.get, EStateM.get, tryCatch, tryCatchThe,
    MonadExceptOf.tryCatch, EStateM.tryCatch] at h
  cases hm : onColumn i m s with
  | ok b s₁ =>
    rw [hm] at h
    exact h
  | error e s₁ =>
    rw [hm] at h
    cases h

/-- A run on a column that answers ran on the column's store. -/
theorem onColumn_ok {α : Type} {m : StoreOp α} {i : Nat} {a : α} {s' : Disk × Collection}
    (h : onColumn i m (d, c) = .ok a s') :
    ∃ col d' st, c.columns[i]? = some col ∧ m (d, col.store) = .ok a (d', st) ∧
      s' = (d', { c with columns := c.columns.set! i { col with store := st } }) := by
  simp only [onColumn, EStateM.run] at h
  split at h
  next => cases h
  next col hcol =>
    split at h
    next a' d' st hm =>
      cases h
      exact ⟨col, d', st, hcol, hm, rfl⟩
    next => cases h

/-! ## Calls that keep an invariant, answering or failing -/

/-- The collection's columns stand for some models. -/
def Tracked (s : Disk × Collection) : Prop := ∃ M, Tracks s M

/-- Deleting a row from any column keeps the collection tracked. -/
theorem preserves_delete (i x : Nat) : Preserves Tracked (onColumn i (ColumnStore.delete x)) := by
  rintro ⟨d, c⟩ ⟨M, h⟩
  cases hcol : c.columns[i]? with
  | none =>
    simp only [onColumn, hcol]
    exact ⟨M, h⟩
  | some col =>
    obtain ⟨st, hrun, ht, hsids⟩ := (h.tracks i col hcol).delete x
    rw [finalState_onColumn hcol, hrun]
    exact ⟨_, h.setStore hcol ht ((h.describes i col hcol).delete x) hsids (.refl d)⟩

/-- Flushing any column keeps the collection tracked. -/
theorem preserves_flush (i : Nat) : Preserves Tracked (onColumn i ColumnStore.flush) := by
  rintro ⟨d, c⟩ ⟨M, h⟩
  cases hcol : c.columns[i]? with
  | none =>
    simp only [onColumn, hcol]
    exact ⟨M, h⟩
  | some col =>
    obtain ⟨d', st, hrun, ht, hw, hsids⟩ := (h.tracks i col hcol).flush
    rw [finalState_onColumn hcol, hrun]
    exact ⟨_, h.setStore hcol ht (h.describes i col hcol) hsids hw⟩

theorem preserves_deleteFrom (i : Nat) (ids : List Nat) : Preserves Tracked (deleteFrom i ids) :=
  .bind (.forIn _ _ fun _ _ => .bind (preserves_delete _ _) fun _ => .ite (.pure _) (.pure _)) fun _ =>
    .bind .get fun _ => .ite (.bind (preserves_flush _) fun _ => .pure _) (.pure _)

/-- Deleting rows keeps the collection tracked. -/
theorem preserves_deleteRows (ids : List Nat) : Preserves Tracked (delete ids) :=
  .bind .ensureOpen fun _ => .bind .get fun _ => .bind .get fun _ =>
    .bind (.forIn _ _ fun i _ => .bind (preserves_deleteFrom i ids) fun _ => .pure _) fun _ => .pure _

/-- Flushing every column keeps the collection tracked. -/
theorem preserves_flushAll : Preserves Tracked flush :=
  .bind .ensureOpen fun _ => .bind .get fun _ =>
    .bind (.forIn _ _ fun _ _ => .bind (preserves_flush _) fun _ => .pure _) fun _ => .pure _

/-! ## Loops -/

/-- A loop ends where `Q` holds when each pass keeps an invariant `I` of the items still to come,
answering or failing, and the invariant gives `Q` wherever the loop stops. -/
theorem forIn_invariant {β γ : Type} {I : List γ → Disk × Collection → Prop} {Q : Disk × Collection → Prop}
    {f : γ → β → CollectionOp (ForInStep β)} (hf : ∀ a ys b s, I (a :: ys) s → I ys (finalState (f a b s)))
    (hQ : ∀ ys s, I ys s → Q s) (xs : List γ) (b : β) (s : Disk × Collection) (hs : I xs s) :
    Q (finalState (forIn xs b f s)) := by
  induction xs generalizing b s with
  | nil => exact hQ [] s hs
  | cons a xs ih =>
    rw [List.forIn_cons]
    have h := hf a xs b s hs
    show Q (finalState (EStateM.bind (f a b) _ s))
    unfold EStateM.bind
    cases hfs : f a b s with
    | ok r s' =>
      rw [hfs] at h
      cases r with
      | done b' => exact hQ xs s' h
      | yield b' => exact ih b' s' h
    | error e s' =>
      rw [hfs] at h
      exact hQ xs s' h

theorem finalState_bind_pure {α β : Type} (x : CollectionOp α) (g : α → β) (s : Disk × Collection) :
    finalState ((x >>= fun a => pure (g a)) s) = finalState (x s) := by
  show finalState (EStateM.bind x _ s) = _
  unfold EStateM.bind
  cases x s <;> rfl

/-- A write whose fault is caught ends where the write ends. -/
theorem finalState_caught {α β : Type} (x : CollectionOp α) (a : β) (onFault : CollectionError → β)
    (s : Disk × Collection) :
    finalState ((tryCatch (do discard x; pure a) fun e => pure (onFault e)) s) = finalState (x s) := by
  show finalState (EStateM.tryCatch (EStateM.bind (EStateM.map _ x) fun _ => EStateM.pure a) _ s) = _
  unfold EStateM.tryCatch EStateM.bind EStateM.map EStateM.pure
  cases x s <;> rfl

/-- A run on one column leaves every other column as it was. -/
theorem columns_onColumn_of_ne {α : Type} {m : StoreOp α} {i j : Nat} (hij : i ≠ j) (s : Disk × Collection) :
    (finalState (onColumn i m s)).2.columns[j]? = s.2.columns[j]? := by
  obtain ⟨d, c⟩ := s
  cases hcol : c.columns[i]? with
  | none => simp only [onColumn, hcol, finalState]
  | some col => rw [finalState_onColumn hcol, getElem?_setStore hcol, if_neg hij]

/-! ## Inserting a row -/

theorem finalState_eq_outcome {α : Type} (r : EStateM.Result CollectionError (Disk × ColumnStore) α) :
    finalState r = (ColumnStore.outcome r).2 := by
  cases r <;> rfl

/-- An insert with room, on one column, answers as the column's model does, and the collection
stays tracked with that column's model replaced. -/
theorem Tracks.insertAt (h : Tracks (d, c) M) {i : Nat} {col : Column} (hcol : c.columns[i]? = some col)
    {v : Value} {id? : Option Nat} (hroom : (M i).Room v id?) :
    ∃ st, ColumnStore.outcome (ColumnStore.insert v id? (d, col.store)) = (((M i).insert v id?).1, (d, st)) ∧
      Tracks (d, { c with columns := c.columns.set! i { col with store := st } })
        (Function.update M i ((M i).insert v id?).2) := by
  obtain ⟨st, hout, ht, hsids⟩ := (h.tracks i col hcol).insert hroom
  exact ⟨st, hout, h.setStore hcol ht ((h.describes i col hcol).insert v id?) hsids (.refl d)⟩

/-- The key column of a tracked collection stands for a tree's model. -/
theorem Tracks.key_tree (h : Tracks (d, c) M) {k : Nat} {col : Column} (hk : c.keyIndex = some k)
    (hcol : c.columns[k]? = some col) : ∃ kd cap m, M k = .tree kd cap m := by
  have hord := h.keyIndex hk hcol
  have hd := h.describes k col hcol
  cases hM : M k with
  | tree kd cap m => exact ⟨kd, cap, m, rfl⟩
  | text p m =>
    -- a text model describes only a declaration that cannot be searched
    rw [hM] at hd
    have hd' : col.declared.isOrderable = false := hd
    rw [hd'] at hord
    cases hord

/-- An insert under an id that fits a link, into a column with room for the value, keeps the
collection tracked, whether it answers or fails. -/
theorem tracked_insertAt {s : Disk × Collection} (h : Tracked s) {j : Nat} {w : Value} {id : Nat}
    (hid : id < Nat.pow 256 8) (hroom : ∀ col ∈ s.2.columns[j]?, col.store.Room w) :
    Tracked (finalState (onColumn j (ColumnStore.insert w (some id)) s)) := by
  obtain ⟨d, c⟩ := s
  obtain ⟨M, hM⟩ := h
  cases hcol : c.columns[j]? with
  | none =>
    simp only [onColumn, hcol, finalState]
    exact ⟨M, hM⟩
  | some col =>
    have hroom' := (hM.tracks j col hcol).room (hroom col hcol) (fun x hx => by rw [← Option.some.inj hx]; exact hid)
      (fun hx => by cases hx)
    obtain ⟨st, hout, ht⟩ := hM.insertAt hcol hroom'
    rw [finalState_onColumn hcol, finalState_eq_outcome, hout]
    exact ⟨_, ht⟩

/-- Room in each column a row gives a value, for that value; `p` pairs a value with the position of
its column, and the column at `keyAt` is left out. -/
def RoomFor (keyAt : Nat) (L : List (Option Value × Nat)) (c : Collection) : Prop :=
  ∀ p ∈ L, p.2 ≠ keyAt → ∀ w ∈ p.1, ∀ col ∈ c.columns[p.2]?, col.store.Room w

/-- Writing the other columns of a row, under an id that fits a link and with room for each value,
keeps the collection tracked. -/
theorem tracked_writeOthers {keyAt id : Nat} (hid : id < Nat.pow 256 8) (values : List (Option Value))
    {s : Disk × Collection} (h : Tracked s) (hroom : RoomFor keyAt values.zipIdx s.2) :
    Tracked (finalState (writeOthers keyAt id values s)) := by
  unfold writeOthers
  rw [finalState_bind_pure]
  -- the invariant: the collection is tracked, and the columns still to be written, each named once,
  -- have room for their values
  refine forIn_invariant (I := fun L s => Tracked s ∧ RoomFor keyAt L s.2 ∧ (L.map Prod.snd).Nodup)
    (fun p L b s hs => ?_) (fun _ _ hs => hs.1) _ _ s ⟨h, hroom, List.nodup_zipIdx_map_snd values⟩
  obtain ⟨ht, hroom, hnd⟩ := hs
  obtain ⟨v, j⟩ := p
  obtain ⟨hj, hnd'⟩ := List.nodup_cons.mp hnd
  have hrest : RoomFor keyAt L s.2 := fun p hp => hroom p (List.mem_cons_of_mem _ hp)
  cases v with
  | none =>
    dsimp only
    split <;> exact ⟨ht, hrest, hnd'⟩
  | some w =>
    dsimp only
    split
    · exact ⟨ht, hrest, hnd'⟩
    next hk =>
      rw [finalState_bind_pure, finalState_caught, finalState_onNamedColumn]
      refine ⟨tracked_insertAt ht hid (hroom _ List.mem_cons_self (by simpa using hk) w rfl), ?_, hnd'⟩
      -- the write changed column `j` alone, which no later item names
      intro p hp hpk w' hw' col hcol
      have hj' : j ∉ L.map Prod.snd := hj
      have hpj : j ≠ p.2 := fun he => hj' (by rw [he]; exact List.mem_map_of_mem hp)
      rw [columns_onColumn_of_ne hpj] at hcol
      exact hrest p hp hpk w' hw' col hcol

/-- A run that answers ends in the state it ends in. -/
theorem eq_ok_of_run' {α : Type} {x : CollectionOp α} {s : Disk × Collection} {a : α} (h : x.run' s = some a) :
    x s = .ok a (finalState (x s)) := by
  unfold EStateM.run' EStateM.run at h
  cases hx : x s with
  | ok b s' =>
    rw [hx] at h
    cases h
    rfl
  | error e s' =>
    rw [hx] at h
    cases h

/-- A run that reads the state first runs on from the state it read. -/
theorem ok_of_get_bind {α : Type} {f : Disk × Collection → CollectionOp α} {s s' : Disk × Collection} {b : α}
    (h : (get >>= f) s = .ok b s') : f s s = .ok b s' := h

theorem insert_ok {row : String → Option Value} {s s' : Disk × Collection} {b : Bool}
    (h : Collection.insert row s = .ok b s') :
    ∃ keyAt vs kv id s₁ outcomes s₂, s.2.keyIndex = some keyAt ∧
      (s.2.columns.toList.mapM fun col => coerceFor col (row col.declared.name)) = .ok vs ∧
      vs.getD keyAt none = some kv ∧ onNamedColumn keyAt (ColumnStore.insert kv none) s = .ok id s₁ ∧
      writeOthers keyAt id vs s₁ = .ok outcomes s₂ ∧ (Tracked s₂ → Tracked s') := by
  obtain ⟨_, s₀, hopen, hrest⟩ := ok_of_bind (x := ensureOpen) h
  obtain ⟨rfl, -⟩ := ensureOpen_ok hopen
  have h := ok_of_get_bind hrest
  dsimp only at h
  cases hkey : s₀.2.keyIndex with
  | none =>
    simp [hkey, throw, throwThe, MonadExceptOf.throw, EStateM.throw] at h
  | some keyAt =>
    simp only [hkey] at h
    cases hvs : (s₀.2.columns.toList.mapM fun col => coerceFor col (row col.declared.name)) with
    | error e =>
      simp [hvs, bind, EStateM.bind, throw, throwThe, MonadExceptOf.throw, EStateM.throw] at h
    | ok vs =>
      simp only [hvs] at h
      obtain ⟨_, _, hpure, h⟩ := ok_of_bind h
      simp only [pure, EStateM.pure, EStateM.Result.ok.injEq] at hpure
      obtain ⟨rfl, rfl⟩ := hpure
      cases hkv : vs.getD keyAt none with
      | none =>
        rw [hkv] at h
        simp [throw, throwThe, MonadExceptOf.throw, EStateM.throw] at h
      | some kv =>
        rw [hkv] at h
        obtain ⟨id, s₁, hid, h⟩ := ok_of_bind h
        obtain ⟨outcomes, s₂, hout, h⟩ := ok_of_bind h
        refine ⟨keyAt, vs, kv, id, s₁, outcomes, s₂, rfl, rfl, hkv, hid, hout, ?_⟩
        -- the rest undoes or flushes whole columns, each of which keeps a tracked state tracked
        exact fun ht => Preserves.of_ok (.ite (.bind (.forIn _ _ fun _ _ => .ite (.bind (.tryCatch
          (.discard (preserves_delete _ _)) fun _ => .pure _) fun _ => .pure _) (.pure _))
          fun _ => .pure _) (.ite (.bind (.forIn _ _ fun _ _ => .ite (.bind (preserves_flush _)
          fun _ => .pure _) (.pure _)) fun _ => .pure _) (.pure _))) ht h

/-- Room for a row: the key column's pool can hand out one more id that fits a link, and each column
has room for the value the row gives it, converted to the column's kind. -/
def InsertRoom (row : String → Option Value) (c : Collection) : Prop :=
  (∀ k ∈ c.keyIndex, ∀ col ∈ c.columns[k]?, col.store.pool.latest + 1 < Nat.pow 256 8) ∧
  ∀ vs ∈ (c.columns.toList.mapM fun col => coerceFor col (row col.declared.name)).toOption,
    ∀ p ∈ vs.zipIdx, ∀ w ∈ p.1, ∀ col ∈ c.columns[p.2]?, col.store.Room w

instance (row : String → Option Value) (c : Collection) : Decidable (InsertRoom row c) :=
  inferInstanceAs (Decidable (_ ∧ _))

/-- A key inserted, with room, into the key column of a tracked collection whose pool can hand out one
more id: the collection stays tracked with that column's store replaced, and the new id fits a link. -/
theorem Tracks.insertKey (h : Tracks (d, c) M) {keyAt : Nat} (hkey : c.keyIndex = some keyAt) {col : Column}
    (hcol : c.columns[keyAt]? = some col) {kv : Value} (hroom : col.store.Room kv)
    (hlatest : col.store.pool.latest + 1 < Nat.pow 256 8) {id : Nat} {d' : Disk} {st : ColumnStore}
    (hm : ColumnStore.insert kv none (d, col.store) = .ok id (d', st)) :
    id < Nat.pow 256 8 ∧ Tracked (d', { c with columns := c.columns.set! keyAt { col with store := st } }) := by
  have htk := h.tracks keyAt col hcol
  have hnext : (M keyAt).pool.latest + 1 < Nat.pow 256 8 := by
    rw [← htk.pool]
    exact hlatest
  have hroom' := htk.room hroom (fun x (hx : none = some x) => by cases hx) (fun _ => hnext)
  obtain ⟨st₀, hout₀, ht₀⟩ := h.insertAt hcol hroom'
  have hout₁ : ((Except.ok id : Except CollectionError Nat), (d', st)) = (((M keyAt).insert kv none).1, (d, st₀)) := by
    rw [← hout₀, hm]
    rfl
  simp only [Prod.mk.injEq] at hout₁
  obtain ⟨hins, rfl, rfl⟩ := hout₁
  refine ⟨?_, _, ht₀⟩
  -- the key is a tree, whose new id is at most one past its pool's latest
  obtain ⟨kd, cap, m, hMk⟩ := h.key_tree hkey hcol
  have hsound := htk.sound
  rw [hMk] at hins hsound hnext
  have hle := ColumnModel.insert_none_le hsound hins.symm
  omega

/-- A row with room for it, inserted into a tracked collection, leaves it tracked. -/
theorem tracked_insert {row : String → Option Value} {s s' : Disk × Collection} {b : Bool}
    (h : Collection.insert row s = .ok b s') (ht : Tracked s) (hroom : InsertRoom row s.2) : Tracked s' := by
  obtain ⟨keyAt, vs, kv, id, s₁, outcomes, s₂, hkey, hvs, hkv, hid, hout, hrest⟩ := insert_ok h
  obtain ⟨d, c⟩ := s
  obtain ⟨M, hM⟩ := ht
  obtain ⟨hlatest, hrow⟩ := hroom
  have hrow' := hrow vs (by rw [hvs]; rfl)
  obtain ⟨col, d', st, hcol, hm, rfl⟩ := onColumn_ok (onColumn_of_onNamedColumn hid)
  -- the key's value has room in its column
  have hkv' : vs[keyAt]? = some (some kv) := by
    rw [List.getD_eq_getElem?_getD] at hkv
    cases hk : vs[keyAt]? with
    | none =>
      rw [hk] at hkv
      cases hkv
    | some o =>
      rw [hk, Option.getD_some] at hkv
      rw [hkv]
  obtain ⟨hid', ht₁⟩ := hM.insertKey hkey hcol
    (hrow' (some kv, keyAt) (List.mem_zipIdx_iff_getElem?.mpr hkv') kv rfl col hcol) (hlatest keyAt hkey col hcol) hm
  -- the other columns are as they were, with room for their values
  have hothers : RoomFor keyAt vs.zipIdx { c with columns := c.columns.set! keyAt { col with store := st } } := by
    intro p hp hpk w hw col' hcol'
    rw [getElem?_setStore hcol, if_neg (Ne.symm hpk)] at hcol'
    exact hrow' p hp w hw col' hcol'
  have h₂ := tracked_writeOthers hid' vs ht₁ hothers
  rw [hout] at h₂
  exact hrest h₂

/-! ## Setting a column on rows -/

/-- The listed ids that are live rows of the key column. -/
def liveIds (c : Collection) (ids : List Nat) : List Nat :=
  match c.keyIndex.bind (c.columns[·]?) with
  | some k => ids.filter k.store.contains
  | none => []

/-- Room for setting a store to `w` on each of `ids` in turn: before each write the store has room
for the value, and the id fits a link. -/
def RoomAlong (w : Value) : List Nat → Disk × ColumnStore → Prop
  | [], _ => True
  | x :: xs, st => st.2.Room w ∧ x < Nat.pow 256 8 ∧ RoomAlong w xs (finalState (ColumnStore.update x w st))

instance decRoomAlong (w : Value) : (xs : List Nat) → (st : Disk × ColumnStore) → Decidable (RoomAlong w xs st)
  | [], _ => inferInstanceAs (Decidable True)
  | x :: xs, st =>
    have := decRoomAlong w xs (finalState (ColumnStore.update x w st))
    inferInstanceAs (Decidable (st.2.Room w ∧ x < Nat.pow 256 8 ∧
      RoomAlong w xs (finalState (ColumnStore.update x w st))))

/-- Room for setting `column` to `v` on the listed live rows: the value, converted to the column's
kind, has room in the column's store for each write in turn. -/
def UpdateRoom (column : String) (ids : List Nat) (v : Value) (s : Disk × Collection) : Prop :=
  ∀ i ∈ s.2.position column, ∀ col ∈ s.2.columns[i]?, ∀ w ∈ (coerceFor col (some v)).toOption.join,
    RoomAlong w (liveIds s.2 ids) (s.1, col.store)

instance (column : String) (ids : List Nat) (v : Value) (s : Disk × Collection) :
    Decidable (UpdateRoom column ids v s) :=
  inferInstanceAs (Decidable (∀ i ∈ s.2.position column, _))

/-- An update with room, on one column, answers as the column's model does, and the collection
stays tracked with that column's model replaced. -/
theorem Tracks.updateAt (h : Tracks (d, c) M) {i : Nat} {col : Column} (hcol : c.columns[i]? = some col)
    {x : Nat} {v : Value} (hroom : (M i).Room v (some x)) :
    ∃ st, ColumnStore.outcome (ColumnStore.update x v (d, col.store)) = (((M i).update x v).1, (d, st)) ∧
      Tracks (d, { c with columns := c.columns.set! i { col with store := st } })
        (Function.update M i ((M i).update x v).2) := by
  obtain ⟨st, hout, ht, hsids⟩ := (h.tracks i col hcol).update hroom
  exact ⟨st, hout, h.setStore hcol ht ((h.describes i col hcol).update x v) hsids (.refl d)⟩

/-- Setting a column on one row with room for it keeps the collection tracked, and leaves room for
the rows after it. -/
theorem tracked_updateAt {s : Disk × Collection} (h : Tracked s) {i x : Nat} {w : Value} {L : List Nat}
    (hroom : ∀ col ∈ s.2.columns[i]?, RoomAlong w (x :: L) (s.1, col.store)) :
    Tracked (finalState (onColumn i (ColumnStore.update x w) s)) ∧
      ∀ col ∈ (finalState (onColumn i (ColumnStore.update x w) s)).2.columns[i]?,
        RoomAlong w L ((finalState (onColumn i (ColumnStore.update x w) s)).1, col.store) := by
  obtain ⟨d, c⟩ := s
  obtain ⟨M, hM⟩ := h
  cases hcol : c.columns[i]? with
  | none =>
    simp only [onColumn, hcol, finalState]
    exact ⟨⟨M, hM⟩, fun col hcol' => absurd hcol' (Option.not_mem_none col)⟩
  | some col =>
    obtain ⟨hstore, hx, hrest⟩ := hroom col hcol
    have hroom' := (hM.tracks i col hcol).room hstore (fun y hy => by rw [← Option.some.inj hy]; exact hx)
      (fun hy => by cases hy)
    obtain ⟨st, hout, ht⟩ := hM.updateAt hcol hroom'
    have hfin : finalState (ColumnStore.update x w (d, col.store)) = (d, st) := by
      rw [finalState_eq_outcome, hout]
    rw [hfin] at hrest
    rw [finalState_onColumn hcol, hfin]
    refine ⟨⟨_, ht⟩, fun col' hcol' => ?_⟩
    rw [getElem?_setStore hcol, if_pos rfl] at hcol'
    cases hcol'
    exact hrest

/-- Setting a column on rows, with room for each write, keeps the collection tracked. -/
theorem tracked_update {column : String} {ids : List Nat} {v : Value} {s s' : Disk × Collection} {n : Nat}
    (h : Collection.update column ids v s = .ok n s') (ht : Tracked s) (hroom : UpdateRoom column ids v s) :
    Tracked s' := by
  obtain ⟨_, s₀, hopen, hrest⟩ := ok_of_bind (x := ensureOpen) h
  obtain ⟨rfl, -⟩ := ensureOpen_ok hopen
  have h := ok_of_get_bind hrest
  dsimp only at h
  cases hpos : s₀.2.position column with
  | none => simp [hpos, throw, throwThe, MonadExceptOf.throw, EStateM.throw] at h
  | some i =>
    simp only [hpos] at h
    cases hv : coerceFor (s₀.2.columns[i]?.getD default) (some v) with
    | error e =>
      rw [hv] at h
      simp [bind, EStateM.bind, throw, throwThe, MonadExceptOf.throw, EStateM.throw] at h
    | ok o =>
      cases o with
      | none =>
        rw [hv] at h
        simp [bind, EStateM.bind, throw, throwThe, MonadExceptOf.throw, EStateM.throw] at h
      | some w =>
        rw [hv] at h
        obtain ⟨_, _, hpure, h⟩ := ok_of_bind h
        simp only [pure, EStateM.pure, EStateM.Result.ok.injEq] at hpure
        obtain ⟨rfl, rfl⟩ := hpure
        obtain ⟨u, s₁, hloop, h⟩ := ok_of_bind h
        have hstart : ∀ col ∈ s₀.2.columns[i]?, RoomAlong w (liveIds s₀.2 ids) (s₀.1, col.store) := by
          intro col hcol
          refine hroom i hpos col hcol w ?_
          rw [show s₀.2.columns[i]? = some col from hcol, Option.getD_some] at hv
          rw [hv]
          rfl
        -- the loop sets column `i` on each live row in turn; the invariant: the collection is tracked
        -- and the column has room for the rows still to come
        have h₁ : Tracked (finalState (EStateM.Result.ok u s₁ : EStateM.Result CollectionError _ PUnit)) := by
          rw [← hloop]
          refine forIn_invariant (I := fun L s => Tracked s ∧ ∀ col ∈ s.2.columns[i]?, RoomAlong w L (s.1, col.store))
            (fun x L b s hs => ?_) (fun _ _ hs => hs.1) _ _ s₀ ⟨ht, hstart⟩
          rw [finalState_bind_pure, finalState_onNamedColumn]
          exact tracked_updateAt hs.1 hs.2
        exact Preserves.of_ok (.ite (.bind (preserves_flush i) fun _ => .pure _) (.pure _)) h₁ h

end Collection

/-! ## Opening new files -/

namespace Disk

variable {d d' : Disk}

/-- `d'` holds every store of `d` with the same bytes, and perhaps new empty ones. -/
def Extends (d d' : Disk) : Prop := d.stores.size ≤ d'.stores.size ∧ ∀ t, d'.bytesOf t = d.bytesOf t

theorem Extends.trans {d'' : Disk} (h₁ : Extends d d') (h₂ : Extends d' d'') : Extends d d'' :=
  ⟨h₁.1.trans h₂.1, fun t => (h₂.2 t).trans (h₁.2 t)⟩

theorem Extends.onlyIn (h : Extends d d') (r : Nat) : OnlyIn d d' r := ⟨h.1, fun t _ => h.2 t⟩

/-- Opening the file at a path: a file the path names keeps its store, and a missing one gets a new
empty store, named last by the path's key; otherwise only directories change. -/
theorem openFile_ok {p : String} {s : Nat} (h : d.openFile p = .ok (s, d')) :
    (d.fileStore? p = some s ∧ d'.stores = d.stores ∧ d'.files = d.files) ∨
      (d.fileStore? p = none ∧ s = d.stores.size ∧ d'.stores = d.stores.push .empty ∧
        d'.files = d.files ++ [(pathKey p, s)]) := by
  unfold openFile at h
  cases hc : d.createDirs (parentDirs p) with
  | error e => simp [hc, bind, Except.bind] at h
  | ok d₁ =>
    -- creating directories changes neither stores nor files
    have hd₁ : d₁.stores = d.stores ∧ d₁.files = d.files := by
      unfold createDirs at hc
      split at hc
      · cases hc
      · cases hc
        exact ⟨rfl, rfl⟩
    have hlook : d₁.fileStore? p = d.fileStore? p := by simp only [fileStore?, hd₁.2]
    simp only [hc, bind, Except.bind] at h
    split at h
    next => simp [throw, throwThe, MonadExceptOf.throw] at h
    next =>
      split at h
      next s' hs' =>
        simp only [pure, Except.pure, Except.ok.injEq, Prod.mk.injEq] at h
        obtain ⟨rfl, rfl⟩ := h
        exact .inl ⟨hlook ▸ hs', hd₁.1, hd₁.2⟩
      next hnone =>
        obtain ⟨stores, files, dirs⟩ := d₁
        simp only [fresh, pure, Except.pure, Except.ok.injEq, Prod.mk.injEq] at h
        obtain ⟨rfl, rfl⟩ := h
        obtain ⟨hst, hfi⟩ := hd₁
        dsimp only at hst hfi ⊢
        subst hst hfi
        exact .inr ⟨hlook ▸ hnone, rfl, rfl, rfl⟩

theorem Extends.openFile {p : String} {s : Nat} (h : d.openFile p = .ok (s, d')) : Extends d d' := by
  rcases openFile_ok h with ⟨-, hst, -⟩ | ⟨-, -, hst, -⟩
  · exact ⟨by rw [hst], fun t => by simp only [bytesOf, hst]⟩
  · refine ⟨by rw [hst, Array.size_push]; omega, fun t => ?_⟩
    simp only [bytesOf, hst, Array.getD_eq_getD_getElem?, Array.getElem?_push]
    split_ifs with ht
    · subst ht
      simp
    · rfl

/-- The file a path opens is the one the path names afterwards. -/
theorem fileStore?_openFile {p : String} {s : Nat} (h : d.openFile p = .ok (s, d')) :
    d'.fileStore? p = some s := by
  rcases openFile_ok h with ⟨hs, -, hfi⟩ | ⟨hnone, -, -, hfi⟩
  · simpa only [fileStore?, hfi] using hs
  · simp only [fileStore?] at hnone ⊢
    simp [hfi, List.lookup_append, hnone]

/-- Opening a file leaves what other path keys name. -/
theorem fileStore?_openFile_of_ne {p q : String} {s : Nat} (h : d.openFile p = .ok (s, d'))
    (hq : pathKey q ≠ pathKey p) : d'.fileStore? q = d.fileStore? q := by
  rcases openFile_ok h with ⟨-, -, hfi⟩ | ⟨-, -, -, hfi⟩
  · simp only [fileStore?, hfi]
  · simp [fileStore?, hfi, List.lookup_append, List.lookup, beq_false_of_ne hq]

/-- A file no path names opens on a new empty store, past every store of `d`. -/
theorem openFile_new {p : String} {s : Nat} (h : d.openFile p = .ok (s, d')) (hp : d.fileStore? p = none) :
    s = d.stores.size ∧ s < d'.stores.size ∧ d'.size s = 0 := by
  rcases openFile_ok h with ⟨hs, -, -⟩ | ⟨-, rfl, hst, -⟩
  · rw [hp] at hs
    cases hs
  · refine ⟨rfl, by rw [hst, Array.size_push]; omega, ?_⟩
    simp [size, bytesOf, hst]

@[simp] theorem files_setContents (d : Disk) (s : Nat) (bs : List UInt8) :
    (d.setContents s bs).files = d.files := by
  unfold setContents
  split
  · rfl
  · rfl

@[simp] theorem size_setContents (d : Disk) (s : Nat) (bs : List UInt8) :
    (d.setContents s bs).stores.size = d.stores.size := by
  unfold setContents
  split
  · simp
  · rfl

theorem onlyIn_setContents (d : Disk) (s : Nat) (bs : List UInt8) : OnlyIn d (d.setContents s bs) s := by
  refine ⟨(size_setContents d s bs).ge, fun t ht => ?_⟩
  obtain ⟨stores, files, dirs⟩ := d
  unfold setContents
  split
  · simp only [bytesOf, Array.getD_eq_getD_getElem?, Array.set!_eq_setIfInBounds, Array.getElem?_setIfInBounds,
      if_neg (Ne.symm ht)]
  · rfl

/-- Writing a whole file changes one store: the one its path names, or a new one. -/
theorem putFile_ok {p : String} {bs : List UInt8} (h : d.putFile p bs = .ok d') :
    ∃ r, OnlyIn d d' r ∧ (d.fileStore? p = some r ∨ r = d.stores.size) := by
  unfold putFile at h
  cases ho : d.openFile p with
  | error e => simp [ho, bind, Except.bind] at h
  | ok r =>
    obtain ⟨s, d₁⟩ := r
    simp only [ho, bind, Except.bind, pure, Except.pure, Except.ok.injEq] at h
    subst h
    refine ⟨s, ((Extends.openFile ho).onlyIn s).trans (onlyIn_setContents d₁ s bs), ?_⟩
    rcases openFile_ok ho with ⟨hs, -⟩ | ⟨-, hs, -⟩
    · exact .inl hs
    · exact .inr hs

end Disk

/-- A tree file lies on the store it was opened on. -/
theorem Tree.TreeFile.store_open {d : Disk} {store : StoreRef} {label : String} {kind : ValueKind} {capacity : Nat}
    {t : TreeFile} (hcap : capacity < Nat.pow 256 4) (hs : store.store < d.stores.size)
    (h : TreeFile.open d store label kind capacity = .ok t) : t.core.store = store := by
  unfold TreeFile.open at h
  cases hc : BlockFile.open d store label treeHeader nodeHeader capacity with
  | error e => simp [hc, bind, Except.bind] at h
  | ok core =>
    simp only [hc, bind, Except.bind, pure, Except.pure, Except.ok.injEq] at h
    subst h
    exact (BlockFile.holds_open (by decide) (by decide) hcap hs hc).2.2.1

/-- Room to open a column's files: a text column's blob slots hold more than a slot's header and
their size fits four bytes. -/
def StorageKind.Room : StorageKind → Prop
  | .ordered _ => True
  | .text cap => chunkHeader < cap ∧ cap < Nat.pow 256 4

instance : (k : StorageKind) → Decidable k.Room
  | .ordered _ => inferInstanceAs (Decidable True)
  | .text cap => inferInstanceAs (Decidable (chunkHeader < cap ∧ cap < Nat.pow 256 4))

namespace ColumnDef

variable {def_ : ColumnDef} {tbs cap : Nat}

/-- A column can be searched exactly when its files are a tree, whatever the block size of text. -/
theorem isOrderable_iff_storage (def_ : ColumnDef) (tbs : Nat) :
    def_.isOrderable = true ↔ ∃ cap, def_.storage tbs = .ordered cap := by
  unfold isOrderable storage
  cases def_.kind.width? with
  | some w => simp
  | none =>
    by_cases h0 : def_.size = 0
    · simp [h0]
    · by_cases hl : inlineTextLimit < def_.size <;> simp [h0, hl]

/-- A tree's slots fit a four-byte size. -/
theorem storage_ordered_lt (h : def_.storage tbs = .ordered cap) : cap < Nat.pow 256 4 := by
  have hpow : Nat.pow 2 32 = Nat.pow 256 4 := rfl
  unfold storage at h
  split at h
  · cases h
    exact hpow ▸ Nat.mod_lt _ (by decide)
  · split_ifs at h
    cases h
    exact hpow ▸ Nat.mod_lt _ (by decide)

end ColumnDef

namespace Column

/-- The paths of the files a column declared in `dir` opens: its main file, and for text its blob
file. -/
def columnPaths (dir : String) (def_ : ColumnDef) (tbs : Nat) : List String :=
  match def_.storage tbs with
  | .ordered _ => [joinPath dir (columnFile def_.name)]
  | .text _ => [joinPath dir (columnFile def_.name), joinPath dir (blobFile def_.name)]

/-- Opening a column's file opens the file at its path and reads it from the disk that results. -/
theorem openFileAt_ok {α : Type} {path : String} {f : Disk → StoreRef → Except FileError α} {d d' : Disk} {a : α}
    (h : openFileAt path f d = .ok a d') : ∃ s, d.openFile path = .ok (s, d') ∧ f d' ⟨s, some path⟩ = .ok a := by
  unfold openFileAt at h
  cases hc : StoreRef.create d path with
  | error e =>
    rw [hc] at h
    cases h
  | ok r =>
    obtain ⟨ref, d₁⟩ := r
    rw [hc] at h
    dsimp only at h
    cases hf : f d₁ ref with
    | error e =>
      rw [hf] at h
      cases h
    | ok b =>
      rw [hf] at h
      cases h
      unfold StoreRef.create at hc
      split at hc
      · cases hc
      · cases ho : d.openFile path with
        | error m =>
          rw [ho] at hc
          cases hc
        | ok q =>
          obtain ⟨s, d₂⟩ := q
          rw [ho] at hc
          cases hc
          exact ⟨s, rfl, hf⟩

/-- What opening a column's files on new `paths` gives: a store standing for an empty column of its
kind, lying past every store of `d`, on a disk that only gained stores, where every other path names
what it named. -/
structure OpensNew (def_ : ColumnDef) (paths : List String) (d d' : Disk) (st : ColumnStore) : Prop where
  /-- The store stands for a column of the declared kind with no rows. -/
  tracks : ∃ cm, ColumnStore.Tracks (d', st) cm ∧ cm.Describes { def_ with key := false }
  /-- Its files lie on stores the disk did not have. -/
  fresh : ∀ r ∈ st.sids, d.stores.size ≤ r
  grows : Disk.Extends d d'
  others : ∀ q, (∀ p ∈ paths, pathKey q ≠ pathKey p) → d'.fileStore? q = d.fileStore? q

/-- A searchable column opened on a path no file names: a tree of its kind with no rows. -/
theorem openTree_new {path : String} {def_ : ColumnDef} {tbs cap : Nat} {d d' : Disk} {t : Tree.TreeFile}
    (hs : def_.storage tbs = .ordered cap)
    (ho : openFileAt path (fun d r => Tree.TreeFile.open d r path def_.kind cap) d = .ok t d')
    (hnew : d.fileStore? path = none) : OpensNew def_ [path] d d' (.ordered t) := by
  obtain ⟨s, hof, hto⟩ := openFileAt_ok ho
  obtain ⟨rfl, hlt, hempty⟩ := Disk.openFile_new hof hnew
  have hcap := ColumnDef.storage_ordered_lt hs
  refine ⟨⟨.tree def_.kind (cap - nodeHeader) ⟨⟨0, []⟩, []⟩, TreeCall.tracks_open_new hcap hlt hempty hto,
    (ColumnDef.isOrderable_iff_storage def_ tbs).mpr ⟨cap, hs⟩, rfl⟩, fun r hr => ?_, Disk.Extends.openFile hof,
    fun q hq => Disk.fileStore?_openFile_of_ne hof (hq _ (List.mem_singleton_self _))⟩
  -- the tree lies on the new store
  rw [List.mem_singleton.mp hr]
  show d.stores.size ≤ t.core.store.store
  rw [Tree.TreeFile.store_open hcap hlt hto]

/-- A text column opened on two paths no file names, with room for its chunks: a pointer file and a
blob file with no texts, on two new stores. -/
theorem openText_new {path blobPath : String} {def_ : ColumnDef} {tbs cap : Nat} {d d₁ d₂ : Disk}
    {p : Data.DataFile} {b : BlobFile} (hs : def_.storage tbs = .text cap)
    (hcap : chunkHeader < cap) (hcap' : cap < Nat.pow 256 4) (hne : pathKey blobPath ≠ pathKey path)
    (ho₁ : openFileAt path (fun d r => Data.DataFile.open d r path (.int .u64) pointerCapacity) d = .ok p d₁)
    (ho₂ : openFileAt blobPath (fun d r => BlobFile.open d r blobPath cap) d₁ = .ok b d₂)
    (hnew : ∀ q ∈ [path, blobPath], d.fileStore? q = none) :
    OpensNew def_ [path, blobPath] d d₂ (.text ⟨p, b⟩) := by
  obtain ⟨s₁, hof₁, hpo⟩ := openFileAt_ok ho₁
  obtain ⟨s₂, hof₂, hbo⟩ := openFileAt_ok ho₂
  obtain ⟨rfl, hlt₁, hempty₁⟩ := Disk.openFile_new hof₁ (hnew _ List.mem_cons_self)
  have hnew₂ : d₁.fileStore? blobPath = none := by
    rw [Disk.fileStore?_openFile_of_ne hof₁ hne]
    exact hnew _ (by simp)
  obtain ⟨rfl, hlt₂, hempty₂⟩ := Disk.openFile_new hof₂ hnew₂
  have hext₂ := Disk.Extends.openFile hof₂
  have hne₁₂ : d.stores.size ≠ d₁.stores.size := by omega
  -- the pointer file reads alike once the blob file's store is made
  have hopen : TextFile.open d₂ ⟨d.stores.size, some path⟩ ⟨d₁.stores.size, some blobPath⟩ path blobPath cap =
      .ok ⟨p, b⟩ := by
    unfold TextFile.open
    have hne' : (⟨d.stores.size, some path⟩ : StoreRef).store ≠ d₁.stores.size := hne₁₂
    rw [Data.DataFile.open_apart (hext₂.onlyIn d₁.stores.size) hne', hpo, hbo]
    rfl
  have hpe : d₂.size d.stores.size = 0 := by
    rw [(hext₂.onlyIn d₁.stores.size).size_eq hne₁₂]
    exact hempty₁
  refine ⟨⟨.text (cap - chunkHeader) _, ⟨TextEvent.tracks_open_new hcap hcap'
    (show d.stores.size < d₂.stores.size by omega) hlt₂ hne₁₂ hpe hempty₂ hopen, fun _ _ hq => by cases hq⟩, ?_⟩,
    fun r hr => ?_, (Disk.Extends.openFile hof₁).trans hext₂, fun q hq => ?_⟩
  · -- a text column cannot be searched
    show def_.isOrderable = false
    refine Bool.eq_false_iff.mpr fun hord => ?_
    obtain ⟨cap', hcap''⟩ := (ColumnDef.isOrderable_iff_storage def_ tbs).mp hord
    rw [hs] at hcap''
    cases hcap''
  · -- the two files lie on the two new stores
    rcases List.mem_pair.mp hr with rfl | rfl
    · show d.stores.size ≤ p.core.store.store
      rw [Data.DataFile.store_open (by decide) hlt₁ hpo]
    · show d.stores.size ≤ b.core.store.store
      rw [BlobFile.store_open hcap' hlt₂ hbo]
      exact hlt₁.le
  · rw [Disk.fileStore?_openFile_of_ne hof₂ (hq _ (by simp)), Disk.fileStore?_openFile_of_ne hof₁ (hq _ (by simp))]

/-- A column opened on paths no file names, with room, lies on new, empty stores past every store of
`d`: a tree of its kind with no rows, or a text file with no texts. -/
theorem openStore_new {dir : String} {def_ : ColumnDef} {tbs : Nat} {d d' : Disk} {st : ColumnStore}
    (h : openStore dir def_ tbs d = .ok st d') (hnew : ∀ p ∈ columnPaths dir def_ tbs, d.fileStore? p = none)
    (hkeys : ((columnPaths dir def_ tbs).map pathKey).Nodup) (hroom : (def_.storage tbs).Room) :
    OpensNew def_ (columnPaths dir def_ tbs) d d' st := by
  unfold openStore at h
  simp only [bind] at h
  unfold columnPaths at hnew hkeys ⊢
  -- one case for each kind of file the column's storage opens
  cases hs : def_.storage tbs with
  | ordered cap =>
    rw [hs] at h hnew
    dsimp only [EStateM.bind] at h
    split at h
    next t d₁ ho =>
      simp only [pure, EStateM.pure, EStateM.Result.ok.injEq] at h
      obtain ⟨rfl, rfl⟩ := h
      exact openTree_new hs ho (hnew _ (List.mem_singleton_self _))
    next => cases h
  | text cap =>
    rw [hs] at h hroom hnew hkeys
    obtain ⟨hcap, hcap'⟩ : chunkHeader < cap ∧ cap < Nat.pow 256 4 := hroom
    have hne : pathKey (joinPath dir (blobFile def_.name)) ≠ pathKey (joinPath dir (columnFile def_.name)) := by
      intro he
      simp [he] at hkeys
    dsimp only [EStateM.bind] at h
    split at h
    next p d₁ ho₁ =>
      split at h
      next b d₂ ho₂ =>
        simp only [pure, EStateM.pure, EStateM.Result.ok.injEq] at h
        obtain ⟨rfl, rfl⟩ := h
        exact openText_new hs hcap hcap' hne ho₁ ho₂ hnew
      next => cases h
    next => cases h

end Column

/-- A store standing for its model still does once the disk gains new empty stores. -/
theorem Column.ColumnStore.Tracks.extend {d d' : Disk} {s : ColumnStore} {cm : ColumnModel}
    (h : ColumnStore.Tracks (d, s) cm) (hext : Disk.Extends d d') : ColumnStore.Tracks (d', s) cm :=
  h.across (hext.onlyIn d.stores.size) fun hr => lt_irrefl _ (h.sids_lt _ hr)

namespace Collection

variable {c : Collection} {d : Disk} {M : Nat → ColumnModel}

/-! ## Declaring a column -/

/-- A declaration answers `false` for a declared name and changes nothing; otherwise it opens the
column's store and adds the column last, the key when marked as key (which only a searchable column
may be) or when the collection has no key and it can be searched. -/
theorem declareIn_cases {def_ : ColumnDef} {b : Bool} {s' : Disk × Collection}
    (h : declareIn def_ (d, c) = .ok b s') :
    (b = false ∧ s' = (d, c)) ∨
      (b = true ∧ c.position def_.name = none ∧ (def_.key = true → def_.isOrderable = true) ∧
        ∃ st d', openStore c.directory def_ c.settings.textBlockSize d = .ok st d' ∧
          s' = (d', { c with key := if def_.key || (c.key.isNone && def_.isOrderable) then some def_.name else c.key,
                             columns := c.columns.push ⟨{ def_ with key := false }, st⟩ })) := by
  simp only [declareIn, bind, EStateM.bind, get, getThe, MonadStateOf.get, EStateM.get] at h
  split at h
  next =>
    simp only [pure, EStateM.pure, EStateM.Result.ok.injEq] at h
    exact .inl ⟨h.1.symm, h.2.symm⟩
  next hnew =>
    split at h
    next => simp [throw, throwThe, MonadExceptOf.throw, EStateM.throw] at h
    next hkey =>
      cases hs : (openStore c.directory def_ c.settings.textBlockSize).run d with
      | error e d'' => simp [onDisk, hs, EStateM.bind] at h
      | ok store d'' =>
        simp only [onDisk, hs, EStateM.bind, modify, modifyGet, MonadStateOf.modifyGet, EStateM.modifyGet,
          pure, EStateM.pure, EStateM.Result.ok.injEq] at h
        obtain ⟨rfl, rfl⟩ := h
        exact .inr ⟨rfl, by simpa using hnew, fun hk => by simpa [hk] using hkey, store, d'', hs, rfl⟩

/-- The position of a name after a column is added last: where it was, or else the new column's. -/
theorem position_push (c : Collection) (k : Option String) (col : Column) (n : String) :
    ({ c with key := k, columns := c.columns.push col } : Collection).position n =
      (c.position n).or (if col.declared.name == n then some c.columns.size else none) := by
  simp only [position, Array.findIdx?_push]

/-- A tracked collection stays tracked after a write to a store no column lies on. -/
theorem Tracks.across (h : Tracks (d, c) M) {d' : Disk} {r : Nat} (hw : Disk.OnlyIn d d' r)
    (hr : ∀ (i : Nat) (col : Column), c.columns[i]? = some col → r ∉ col.store.sids) : Tracks (d', c) M :=
  ⟨fun i col hcol => (h.tracks i col hcol).across hw (hr i col hcol), h.describes, h.apart, h.keyed, h.named⟩

/-- Adding a column of a new name, whose store stands for a model its declaration describes on
stores past every store of `d`, after the disk only gained stores, keeps the collection tracked. -/
theorem Tracks.declare (h : Tracks (d, c) M) {def_ : ColumnDef} (hpos : c.position def_.name = none)
    (hkey : def_.key = true → def_.isOrderable = true) {d' : Disk} {st : ColumnStore} {cm : ColumnModel}
    (ht : ColumnStore.Tracks (d', st) cm) (hd : cm.Describes { def_ with key := false })
    (hfresh : ∀ r ∈ st.sids, d.stores.size ≤ r) (hext : Disk.Extends d d') :
    Tracks (d', { c with key := if def_.key || (c.key.isNone && def_.isOrderable) then some def_.name else c.key,
                         columns := c.columns.push ⟨{ def_ with key := false }, st⟩ })
      (Function.update M c.columns.size cm) := by
  -- the old columns lie below the new stores
  have hbelow : ∀ (j : Nat) (col : Column), c.columns[j]? = some col → ∀ r ∈ col.store.sids, r < d.stores.size :=
    fun j col hj => (h.tracks j col hj).sids_lt
  have hlt : ∀ (j : Nat) (col : Column), c.columns[j]? = some col → j ≠ c.columns.size := fun j col hj he =>
    by rw [he, Array.getElem?_eq_none (le_refl _)] at hj; cases hj
  refine ⟨fun j col hj => ?_, fun j col hj => ?_, fun i j col col' hi hj hij => ?_, fun n hn => ?_, fun j col hj => ?_⟩
  · rw [Array.getElem?_push] at hj
    split_ifs at hj with hjs
    · cases hj
      rw [hjs, Function.update_self]
      exact ht
    · rw [Function.update_of_ne hjs]
      exact (h.tracks j col hj).extend hext
  · rw [Array.getElem?_push] at hj
    split_ifs at hj with hjs
    · cases hj
      rw [hjs, Function.update_self]
      exact hd
    · rw [Function.update_of_ne hjs]
      exact h.describes j col hj
  · rw [Array.getElem?_push] at hi hj
    split_ifs at hi hj with his hjs hjs
    · exact absurd (his.trans hjs.symm) hij
    · cases hi
      exact fun r hr hr' => lt_irrefl _ (lt_of_lt_of_le (hbelow j col' hj r hr') (hfresh r hr))
    · cases hj
      exact fun r hr hr' => lt_irrefl _ (lt_of_lt_of_le (hbelow i col hi r hr) (hfresh r hr'))
    · exact h.apart i j col col' hi hj hij
  · dsimp only at hn
    split_ifs at hn with hbk
    · -- the new column becomes the key; only a searchable column does
      cases hn
      refine ⟨c.columns.size, _, ?_, by rw [Array.getElem?_push, if_pos rfl], ?_⟩
      · rw [position_push, hpos]
        simp
      · show def_.isOrderable = true
        cases hk : def_.key
        · simp only [hk, Bool.false_or, Bool.and_eq_true] at hbk
          exact hbk.2
        · exact hkey hk
    · obtain ⟨k, col, hk, hcol, hord⟩ := h.keyed n hn
      refine ⟨k, col, by rw [position_push, hk]; rfl, ?_, hord⟩
      rw [Array.getElem?_push, if_neg (hlt k col hcol)]
      exact hcol
  · rw [Array.getElem?_push] at hj
    split_ifs at hj with hjs
    · cases hj
      rw [position_push, hpos, hjs]
      simp
    · rw [position_push, h.named j col hj]
      rfl

/-- Room to declare a column of a new name: its files are new, on paths whose keys differ from one
another and from the metadata file's; it has room to open; and the metadata file, if there is
one, lies on a store of the disk that no column lies on. -/
def DeclareRoom (def_ : ColumnDef) (s : Disk × Collection) : Prop :=
  (s.2.position def_.name).isNone →
    (∀ p ∈ columnPaths s.2.directory def_ s.2.settings.textBlockSize, s.1.fileStore? p = none) ∧
    ((columnPaths s.2.directory def_ s.2.settings.textBlockSize).map pathKey ++ [pathKey s.2.metadataPath]).Nodup ∧
    (def_.storage s.2.settings.textBlockSize).Room ∧
    ∀ r ∈ s.1.fileStore? s.2.metadataPath, r < s.1.stores.size ∧ ∀ col ∈ s.2.columns.toList, r ∉ col.store.sids

instance (def_ : ColumnDef) (s : Disk × Collection) : Decidable (DeclareRoom def_ s) :=
  inferInstanceAs (Decidable (_ → _))

/-- Declaring a column with room for it keeps the collection tracked. -/
theorem tracked_declare {def_ : ColumnDef} {s s' : Disk × Collection} {a : Unit}
    (h : declareColumn def_ s = .ok a s') (ht : Tracked s) (hroom : DeclareRoom def_ s) : Tracked s' := by
  obtain ⟨_, s₁, hopen, hrest⟩ := ok_of_bind (x := ensureOpen) h
  obtain ⟨rfl, -⟩ := ensureOpen_ok hopen
  obtain ⟨b, s₂, hdecl, hmeta⟩ := ok_of_bind hrest
  obtain ⟨d, c⟩ := s₁
  rcases declareIn_cases hdecl with ⟨rfl, rfl⟩ | ⟨rfl, hpos, hkey, st, d', hst, rfl⟩
  · -- a declared name: nothing is written
    simp only [Bool.false_eq_true, if_false, pure, EStateM.pure, EStateM.Result.ok.injEq] at hmeta
    rw [← hmeta.2]
    exact ht
  · obtain ⟨hnew, hkeys, hroomk, hmp⟩ := hroom (by simp [hpos])
    obtain ⟨M, hM⟩ := ht
    obtain ⟨hkeys', -, hdisj⟩ := List.nodup_append.mp hkeys
    obtain ⟨⟨cm, hcm, hdesc⟩, hfresh, hext, hother⟩ := openStore_new hst hnew hkeys' hroomk
    have h₂ := hM.declare hpos hkey hcm hdesc hfresh hext
    -- the metadata file is written on its store, which no column lies on
    rw [if_pos rfl] at hmeta
    obtain ⟨d'', c''⟩ := s'
    obtain ⟨hput, rfl⟩ := writeMetadata_put hmeta
    obtain ⟨r, hw, hr⟩ := Disk.putFile_ok hput
    refine ⟨_, h₂.across hw fun i col hcol hrs => ?_⟩
    have hlt := (h₂.tracks i col hcol).sids_lt r hrs
    rcases hr with hr | rfl
    · -- an old metadata file: on a store of `d` apart from the old columns, below the new one
      have hmeta' : d.fileStore? c.metadataPath = some r := by
        rw [← hother c.metadataPath fun p hp he => hdisj _ (List.mem_map_of_mem hp) _ (List.mem_singleton_self _) he.symm]
        exact hr
      obtain ⟨hrd, hcols⟩ := hmp r hmeta'
      rw [Array.getElem?_push] at hcol
      split_ifs at hcol
      · cases hcol
        exact lt_irrefl _ (lt_of_lt_of_le hrd (hfresh r hrs))
      · exact hcols col (Array.mem_toList_iff.mpr (Array.mem_of_getElem? hcol)) hrs
    · exact lt_irrefl _ hlt

/-! ## Runs of writes -/

namespace CollectionEvent

/-- Room for a call to keep the collection tracked: room for a new column's files, for a row, or for
each write of an update. Deleting and flushing need none; a selection is not one of the writes. -/
def Allowed : CollectionEvent → Disk × Collection → Prop
  | .declare def_, s => DeclareRoom def_ s
  | .insert row, s => InsertRoom row s.2
  | .delete _, _ => True
  | .update column ids v, s => UpdateRoom column ids v s
  | .select _ _, _ => False
  | .flush, _ => True

instance decAllowed : (e : CollectionEvent) → (s : Disk × Collection) → Decidable (e.Allowed s)
  | .declare def_, s => inferInstanceAs (Decidable (DeclareRoom def_ s))
  | .insert row, s => inferInstanceAs (Decidable (InsertRoom row s.2))
  | .delete _, _ => inferInstanceAs (Decidable True)
  | .update column ids v, s => inferInstanceAs (Decidable (UpdateRoom column ids v s))
  | .select _ _, _ => inferInstanceAs (Decidable False)
  | .flush, _ => inferInstanceAs (Decidable True)

/-- Each call of a run is allowed in the state the calls before it leave. -/
def AllowedRun : List CollectionEvent → Disk × Collection → Prop
  | [], _ => True
  | e :: es, s => e.Allowed s ∧ AllowedRun es (finalState (e.run s))

instance decAllowedRun : (es : List CollectionEvent) → (s : Disk × Collection) → Decidable (AllowedRun es s)
  | [], _ => inferInstanceAs (Decidable True)
  | e :: es, s =>
    have := decAllowedRun es (finalState (e.run s))
    inferInstanceAs (Decidable (e.Allowed s ∧ AllowedRun es (finalState (e.run s))))

/-- An allowed call that answers keeps the collection tracked. -/
theorem tracks_run {e : CollectionEvent} {s s' : Disk × Collection} {a : Unit} (h : e.run s = .ok a s')
    (he : e.Allowed s) (ht : Tracked s) : Tracked s' := by
  cases e with
  | declare def_ => exact tracked_declare h ht he
  | insert row =>
    obtain ⟨b, hb⟩ := ok_of_discard h
    exact tracked_insert hb ht he
  | delete ids =>
    obtain ⟨b, hb⟩ := ok_of_discard h
    exact Preserves.of_ok (preserves_deleteRows ids) ht hb
  | update column ids v =>
    obtain ⟨n, hn⟩ := ok_of_discard h
    exact tracked_update hn ht he
  | select condition columns => exact he.elim
  | flush => exact Preserves.of_ok preserves_flushAll ht h

/-- A run of allowed calls that all answer keeps the collection tracked. -/
theorem runEvents_tracks (es : List CollectionEvent) {s s' : Disk × Collection} (h : runEvents es s = .ok () s')
    (hallowed : AllowedRun es s) (ht : Tracked s) : Tracked s' := by
  induction es generalizing s with
  | nil =>
    cases h
    exact ht
  | cons e es ih =>
    have h' : (e.run >>= fun _ => runEvents es) s = .ok () s' := h
    obtain ⟨_, s₁, hstep, hrest⟩ := ok_of_bind h'
    obtain ⟨he, hes⟩ := hallowed
    rw [hstep] at hes
    exact ih hrest hes (tracks_run hstep he ht)

/-- From a new collection, every run of allowed calls that all answer leaves columns serving the
rows and values of some column models. -/
theorem runEvents_stores (es : List CollectionEvent) {d₀ d : Disk} {c₀ c : Collection} (hcols : c₀.columns = #[])
    (hkey : c₀.key = none) (h : runEvents es (d₀, c₀) = .ok () (d, c)) (hallowed : AllowedRun es (d₀, c₀)) :
    ∃ M : Nat → ColumnModel, c.Stores d (fun i => (M i).rows) (fun i => (M i).value) := by
  have hnew : Tracked (d₀, c₀) := ⟨fun _ => .tree .bool 0 ⟨⟨0, []⟩, []⟩, tracks_empty hcols hkey⟩
  obtain ⟨M, hM⟩ := runEvents_tracks es h hallowed hnew
  exact ⟨M, hM.stores⟩

end CollectionEvent

end Collection

end ColumnDb
