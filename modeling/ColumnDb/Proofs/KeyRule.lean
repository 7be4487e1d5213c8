import Mathlib
import ColumnDb.Proofs.QueryEval
import ColumnDb.Collection.Write

/-!
# The key rule

A collection's key is decided by the order of its declarations. A column declared under a name
already declared changes nothing; a new one is added, unmarked, and becomes the key when it is
declared as key or when it is the first orderable column (`declareSchema`). Folded over a run of
declarations this is one rule on the new declarations alone (`foldl_declareSchema`): the key is
the last of them declared as key, or, when none was, the first orderable one (`keyRule`).

Every other call on a collection changes at most the stores of its columns (`StoresOnly`). So
after any run of calls that all succeed, the key and the declarations are those the rule gives
for the run's new declarations (`CollectionEvent.runEvents_key_rule`).
-/

set_option autoImplicit false

namespace ColumnDb

open ColumnDb.Disk ColumnDb.Column ColumnDb.Query

namespace Collection

/-! ## The rule on declarations -/

/-- The key chosen by a list of new declarations: the last one declared as key, or else the
first orderable one. -/
def keyRule (ds : List ColumnDef) : Option String :=
  match (ds.filter (·.key)).getLast? with
  | some d => some d.name
  | none => (ds.find? (·.isOrderable)).map (·.name)

/-- The declarations of new names, in order, after the names `seen`. -/
def freshFrom : List String → List ColumnDef → List ColumnDef
  | _, [] => []
  | seen, d :: ds => if d.name ∈ seen then freshFrom seen ds else d :: freshFrom (seen ++ [d.name]) ds

/-- The schema after one declaration: a new name is added unmarked and becomes the key when it is
declared as key or when it is the first orderable column; a declared name changes nothing. -/
def declareSchema (sch : Option String × Array ColumnDef) (d : ColumnDef) : Option String × Array ColumnDef :=
  if sch.2.any (·.name == d.name) then sch
  else (if d.key || (sch.1.isNone && d.isOrderable) then some d.name else sch.1, sch.2.push { d with key := false })

@[simp] theorem isOrderable_setKey (d : ColumnDef) (b : Bool) : { d with key := b }.isOrderable = d.isOrderable :=
  rfl

@[simp] theorem keyRule_nil : keyRule [] = none := rfl

/-- One more new declaration takes the key when it is declared as key, or when no column is the
key yet and it is orderable. -/
theorem keyRule_append_singleton (ns : List ColumnDef) (d : ColumnDef) :
    keyRule (ns ++ [d]) = if d.key || ((keyRule ns).isNone && d.isOrderable) then some d.name else keyRule ns := by
  unfold keyRule
  cases hk : d.key with
  | true => simp [List.filter_append, hk]
  | false =>
    simp only [List.filter_append, List.filter_singleton, hk, cond_false, List.append_nil, Bool.false_or]
    cases hl : (ns.filter (·.key)).getLast? with
    | some x => simp
    | none =>
      cases hf : ns.find? (·.isOrderable) with
      | some y => simp [List.find?_append, hf]
      | none => cases ho : d.isOrderable <;> simp [List.find?_append, hf, ho]

/-- The key a rule chooses is the name of one of the declarations. -/
theorem exists_of_keyRule {ns : List ColumnDef} {n : String} (h : keyRule ns = some n) :
    ∃ d ∈ ns, d.name = n := by
  unfold keyRule at h
  split at h
  next d hl =>
    cases h
    exact ⟨d, (List.mem_filter.mp (List.mem_of_getLast? hl)).1, rfl⟩
  next =>
    obtain ⟨d, hd, rfl⟩ := Option.map_eq_some_iff.mp h
    exact ⟨d, List.mem_of_find?_eq_some hd, rfl⟩

/-- Marking as key exactly the column the rule chose, and no other, chooses it again. -/
theorem keyRule_mark (ns : List ColumnDef) :
    keyRule (ns.map fun d => { d with key := keyRule ns == some d.name }) = keyRule ns := by
  cases hk : keyRule ns with
  | none =>
    -- no column is marked, and marking does not change which columns are orderable
    unfold keyRule at hk ⊢
    split at hk
    next => cases hk
    next hl =>
      rw [List.filter_map, List.filter_eq_nil_iff.mpr (by simp), List.map_nil]
      simpa [List.find?_map, Function.comp_def] using hk
  | some n =>
    -- the marked columns are exactly those named `n`, and there is one
    obtain ⟨x, hx, rfl⟩ := exists_of_keyRule hk
    have hmem : { x with key := true } ∈
        (ns.map fun d => { d with key := some x.name == some d.name }).filter (·.key) :=
      List.mem_filter.mpr ⟨List.mem_map.mpr ⟨x, hx, by simp⟩, rfl⟩
    obtain ⟨y, hy⟩ := List.getLast?_isSome.mpr (List.ne_nil_of_mem hmem) |> Option.isSome_iff_exists.mp
    have hyname : y.name = x.name := by
      obtain ⟨hy', hkey⟩ := List.mem_filter.mp (List.mem_of_getLast? hy)
      obtain ⟨z, -, rfl⟩ := List.mem_map.mp hy'
      have hz : x.name = z.name := by simpa using hkey
      exact hz.symm
    unfold keyRule
    rw [hy]
    exact congrArg some hyname

/-- Folding the declarations over the schema they start from is the rule on the new ones. -/
theorem foldl_declareSchema (ds ns : List ColumnDef) :
    ds.foldl declareSchema (keyRule ns, (ns.map fun d => { d with key := false }).toArray) =
      (keyRule (ns ++ freshFrom (ns.map (·.name)) ds),
        ((ns ++ freshFrom (ns.map (·.name)) ds).map fun d => { d with key := false }).toArray) := by
  induction ds generalizing ns with
  | nil => simp [freshFrom]
  | cons d ds ih =>
    have hany : ((ns.map fun d => { d with key := false }).toArray.any (·.name == d.name)) = true ↔
        d.name ∈ ns.map (·.name) := by
      simp
    by_cases hin : d.name ∈ ns.map (·.name)
    · rw [List.foldl_cons, declareSchema, if_pos (hany.mpr hin), ih, freshFrom, if_pos hin]
    · have hstep : declareSchema (keyRule ns, (ns.map fun d => { d with key := false }).toArray) d =
          (keyRule (ns ++ [d]), ((ns ++ [d]).map fun d => { d with key := false }).toArray) := by
        rw [declareSchema, if_neg (mt hany.mp hin), keyRule_append_singleton]
        simp
      rw [List.foldl_cons, hstep, ih, freshFrom, if_neg hin]
      simp

/-- The new declarations have distinct names, none of them seen before. -/
theorem freshFrom_names (seen : List String) (ds : List ColumnDef) :
    ((freshFrom seen ds).map (·.name)).Nodup ∧ ∀ d ∈ freshFrom seen ds, d.name ∉ seen := by
  induction ds generalizing seen with
  | nil => simp [freshFrom]
  | cons d ds ih =>
    rw [freshFrom]
    split
    next => exact ih seen
    next hin =>
      obtain ⟨hnd, hout⟩ := ih (seen ++ [d.name])
      refine ⟨List.nodup_cons.mpr ⟨fun h => ?_, hnd⟩, fun x hx => ?_⟩
      · obtain ⟨x, hx, hname⟩ := List.mem_map.mp h
        exact hout x hx (by simp [hname])
      · rcases List.mem_cons.mp hx with rfl | hx
        · exact hin
        · exact fun h => hout x hx (List.mem_append_left _ h)

/-- Declarations of distinct names never seen are all new. -/
theorem freshFrom_of_nodup (seen : List String) (ds : List ColumnDef) (hnd : (ds.map (·.name)).Nodup)
    (hout : ∀ d ∈ ds, d.name ∉ seen) : freshFrom seen ds = ds := by
  induction ds generalizing seen with
  | nil => rfl
  | cons d ds ih =>
    rw [List.map_cons, List.nodup_cons] at hnd
    rw [freshFrom, if_neg (hout d List.mem_cons_self)]
    refine congrArg (d :: ·) (ih _ hnd.2 fun x hx h => ?_)
    rcases List.mem_append.mp h with h | h
    · exact hout x (List.mem_cons_of_mem _ hx) h
    · have hx' := List.mem_map_of_mem (f := (·.name)) hx
      rw [List.mem_singleton.mp h] at hx'
      exact hnd.1 hx'

/-! ## Calls that keep an invariant, answering or failing -/

/-- The state a run ends in, whether it answered or failed. -/
def finalState {ε σ α : Type} : EStateM.Result ε σ α → σ
  | .ok _ s => s
  | .error _ s => s

/-- Every run of `x` from a state where `P` holds ends, whether it answers or fails, in a state
where `P` holds. -/
def Preserves {α : Type} (P : Disk × Collection → Prop) (x : CollectionOp α) : Prop :=
  ∀ s, P s → P (finalState (x s))

namespace Preserves

variable {α β γ : Type} {P : Disk × Collection → Prop}

/-- A call that keeps `P` and answers ends where `P` holds. -/
theorem of_ok {x : CollectionOp α} (hx : Preserves P x) {s s' : Disk × Collection} {a : α} (hs : P s)
    (h : x s = .ok a s') : P s' := by
  have := hx s hs
  rwa [h] at this

theorem pure (a : α) : Preserves P (Pure.pure a : CollectionOp α) := fun _ hs => hs

theorem throw (e : CollectionError) : Preserves P (MonadExcept.throw e : CollectionOp α) := fun _ hs => hs

theorem get : Preserves P (MonadState.get : CollectionOp (Disk × Collection)) := fun _ hs => hs

theorem bind {x : CollectionOp α} {f : α → CollectionOp β} (hx : Preserves P x) (hf : ∀ a, Preserves P (f a)) :
    Preserves P (x >>= f) := by
  intro s hs
  have h := hx s hs
  show P (finalState (EStateM.bind x f s))
  unfold EStateM.bind
  cases hxs : x s with
  | ok a s' =>
    rw [hxs] at h
    exact hf a s' h
  | error e s' =>
    rw [hxs] at h
    exact h

theorem map (g : α → β) {x : CollectionOp α} (hx : Preserves P x) : Preserves P (g <$> x) := by
  intro s hs
  have h := hx s hs
  show P (finalState (EStateM.map g x s))
  unfold EStateM.map
  cases hxs : x s with
  | ok a s' =>
    rw [hxs] at h
    exact h
  | error e s' =>
    rw [hxs] at h
    exact h

theorem discard {x : CollectionOp α} (hx : Preserves P x) : Preserves P (Functor.discard x) := map _ hx

theorem tryCatch {x : CollectionOp α} {h : CollectionError → CollectionOp α} (hx : Preserves P x)
    (hh : ∀ e, Preserves P (h e)) : Preserves P (tryCatch x h) := by
  intro s hs
  have h₁ := hx s hs
  show P (finalState (EStateM.tryCatch x h s))
  unfold EStateM.tryCatch
  cases hxs : x s with
  | ok a s' =>
    rw [hxs] at h₁
    exact h₁
  | error e s' =>
    rw [hxs] at h₁
    exact hh e s' h₁

theorem forIn (xs : List γ) (b : β) {f : γ → β → CollectionOp (ForInStep β)} (hf : ∀ a b, Preserves P (f a b)) :
    Preserves P (forIn xs b f) := by
  induction xs generalizing b with
  | nil => exact pure b
  | cons a xs ih =>
    rw [List.forIn_cons]
    refine bind (hf a b) fun r => ?_
    cases r with
    | done b => exact pure b
    | yield b => exact ih b

theorem ite {p : Prop} [Decidable p] {x y : CollectionOp α} (hx : Preserves P x) (hy : Preserves P y) :
    Preserves P (if p then x else y) := by
  split
  · exact hx
  · exact hy

theorem onNamedColumn {i : Nat} {m : StoreOp α} (h : Preserves P (onColumn i m)) :
    Preserves P (onNamedColumn i m) :=
  bind get fun _ => tryCatch h fun _ => throw _

theorem ensureOpen : Preserves P ensureOpen :=
  bind get fun s => by
    dsimp only
    split
    next => exact throw _
    next => exact pure ()

end Preserves

/-! ## Calls that change only the stores of columns -/

/-- `c'` is `c` with other column stores: the same place, settings, key and declarations. -/
structure Keeps (c c' : Collection) : Prop where
  rest : { c with columns := c'.columns } = c'
  declared : c'.columns.map (·.declared) = c.columns.map (·.declared)

theorem Keeps.refl (c : Collection) : c.Keeps c := ⟨rfl, rfl⟩

theorem Keeps.trans {c₁ c₂ c₃ : Collection} (h₁ : c₁.Keeps c₂) (h₂ : c₂.Keeps c₃) :
    c₁.Keeps c₃ := by
  refine ⟨?_, h₂.declared.trans h₁.declared⟩
  calc { c₁ with columns := c₃.columns } = { c₂ with columns := c₃.columns } := by rw [← h₁.rest]
    _ = c₃ := h₂.rest

theorem Keeps.schema {c c' : Collection} (h : c.Keeps c') : c'.schema = c.schema := by
  rw [Collection.schema, Collection.schema, h.declared, ← h.rest]

/-- Giving a column a new store keeps everything else. -/
theorem Keeps.setStore {c : Collection} {i : Nat} {col : Column} (hcol : c.columns[i]? = some col)
    (st : ColumnStore) : c.Keeps { c with columns := c.columns.set! i { col with store := st } } :=
  ⟨rfl, congrArg Prod.snd (schema_setStore hcol st)⟩

/-- An operation that changes at most the stores of columns, whether it answers or fails. -/
def StoresOnly {α : Type} (x : CollectionOp α) : Prop :=
  ∀ s : Disk × Collection, s.2.Keeps (finalState (x s)).2

namespace StoresOnly

variable {α β γ : Type}

/-- An operation that changes only stores and answers leaves a collection with other stores. -/
theorem of_ok {x : CollectionOp α} (hx : StoresOnly x) {s s' : Disk × Collection} {a : α} (h : x s = .ok a s') :
    s.2.Keeps s'.2 := by
  have hk := hx s
  rw [h] at hk
  exact hk

theorem pure (a : α) : StoresOnly (Pure.pure a : CollectionOp α) := fun s => Keeps.refl s.2

theorem throw (e : CollectionError) : StoresOnly (MonadExcept.throw e : CollectionOp α) :=
  fun s => Keeps.refl s.2

theorem get : StoresOnly (MonadState.get : CollectionOp (Disk × Collection)) := fun s => Keeps.refl s.2

/-- An operation changes only stores exactly when, for every collection, it keeps a state's
collection one of that collection's with other stores; so the combinators of `Preserves` carry
over. -/
theorem iff_preserves {x : CollectionOp α} :
    StoresOnly x ↔ ∀ c : Collection, Preserves (fun s => c.Keeps s.2) x :=
  ⟨fun hx _ s (hs : Keeps _ s.2) => hs.trans (hx s), fun hx s => hx s.2 s (Keeps.refl s.2)⟩

theorem bind {x : CollectionOp α} {f : α → CollectionOp β} (hx : StoresOnly x)
    (hf : ∀ a, StoresOnly (f a)) : StoresOnly (x >>= f) :=
  iff_preserves.mpr fun c => (iff_preserves.mp hx c).bind fun a => iff_preserves.mp (hf a) c

theorem map (g : α → β) {x : CollectionOp α} (hx : StoresOnly x) : StoresOnly (g <$> x) :=
  iff_preserves.mpr fun c => (iff_preserves.mp hx c).map g

theorem discard {x : CollectionOp α} (hx : StoresOnly x) : StoresOnly (Functor.discard x) :=
  map _ hx

theorem tryCatch {x : CollectionOp α} {h : CollectionError → CollectionOp α} (hx : StoresOnly x)
    (hh : ∀ e, StoresOnly (h e)) : StoresOnly (tryCatch x h) :=
  iff_preserves.mpr fun c => (iff_preserves.mp hx c).tryCatch fun e => iff_preserves.mp (hh e) c

theorem forIn (xs : List γ) (b : β) {f : γ → β → CollectionOp (ForInStep β)}
    (hf : ∀ a b, StoresOnly (f a b)) : StoresOnly (forIn xs b f) :=
  iff_preserves.mpr fun c => Preserves.forIn xs b fun a b => iff_preserves.mp (hf a b) c

theorem mapM (xs : List γ) {f : γ → CollectionOp β} (hf : ∀ a, StoresOnly (f a)) :
    StoresOnly (xs.mapM f) := by
  induction xs with
  | nil => exact pure []
  | cons a xs ih =>
    rw [List.mapM_cons]
    exact bind (hf a) fun b => bind ih fun bs => pure (b :: bs)

theorem ite {p : Prop} [Decidable p] {x y : CollectionOp α} (hx : StoresOnly x) (hy : StoresOnly y) :
    StoresOnly (if p then x else y) := by
  split
  · exact hx
  · exact hy

theorem onColumn (i : Nat) (m : StoreOp α) : StoresOnly (onColumn i m) := by
  rintro ⟨d, c⟩
  simp only [Collection.onColumn]
  split
  next => exact Keeps.refl c
  next col hcol =>
    split
    next => exact Keeps.setStore hcol _
    next => exact Keeps.setStore hcol _

theorem onNamedColumn (i : Nat) (m : StoreOp α) : StoresOnly (onNamedColumn i m) :=
  bind get fun _ => tryCatch (onColumn i m) fun _ => throw _

theorem ensureOpen : StoresOnly ensureOpen :=
  bind get fun s => by
    dsimp only
    split
    next => exact throw _
    next => exact pure ()

/-! ## Row operations -/

theorem writeOthers (keyAt id : Nat) (values : List (Option Value)) :
    StoresOnly (writeOthers keyAt id values) := by
  unfold Collection.writeOthers
  refine bind (forIn _ _ fun p _ => ?_) fun _ => pure _
  obtain ⟨v, i⟩ := p
  dsimp only
  refine ite (pure _) ?_
  split
  next => exact pure _
  next =>
    exact bind (tryCatch (bind (discard (onNamedColumn _ _)) fun _ => pure _) fun _ => pure _) fun _ => pure _

theorem insert (row : String → Option Value) : StoresOnly (insert row) := by
  unfold Collection.insert
  refine bind ensureOpen fun _ => bind get fun s => ?_
  dsimp only
  split
  next keyAt _ =>
    -- both ways of converting the row go on to the same writes
    split <;> refine bind (by first | exact pure _ | exact throw _) fun _ => ?_
    all_goals
      split
      next keyValue _ =>
        refine bind (onNamedColumn _ _) fun _ => bind (writeOthers _ _ _) fun _ => ?_
        -- a failed write takes the row out of every column that took it; otherwise the written
        -- columns may be flushed
        exact ite
          (bind (forIn _ _ fun _ _ =>
            ite (bind (tryCatch (discard (onColumn _ _)) fun _ => pure _) fun _ => pure _) (pure _)) fun _ => pure _)
          (ite (bind (forIn _ _ fun _ _ => ite (bind (onColumn _ _) fun _ => pure _) (pure _)) fun _ => pure _)
            (pure _))
      next => exact throw _
  next => exact throw _

theorem deleteFrom (i : Nat) (ids : List Nat) : StoresOnly (deleteFrom i ids) :=
  bind (forIn _ _ fun _ _ => bind (onColumn _ _) fun _ => ite (pure _) (pure _)) fun _ =>
    bind get fun _ => ite (bind (onColumn _ _) fun _ => pure _) (pure _)

theorem delete (ids : List Nat) : StoresOnly (delete ids) :=
  bind ensureOpen fun _ => bind get fun _ => bind get fun _ =>
    bind (forIn _ _ fun i _ => bind (deleteFrom i ids) fun _ => pure _) fun _ => pure _

theorem update (column : String) (ids : List Nat) (v : Value) : StoresOnly (update column ids v) := by
  unfold Collection.update
  refine bind ensureOpen fun _ => bind get fun s => ?_
  dsimp only
  split
  next i _ =>
    split <;> refine bind (by first | exact pure _ | exact throw _) fun _ => ?_
    all_goals
      exact bind (forIn _ _ fun _ _ => bind (onNamedColumn _ _) fun _ => pure _) fun _ =>
        ite (bind (onColumn _ _) fun _ => pure _) (pure _)
  next => exact throw _

theorem flush : StoresOnly flush :=
  bind ensureOpen fun _ => bind get fun _ =>
    bind (forIn _ _ fun _ _ => bind (onColumn _ _) fun _ => pure _) fun _ => pure _

theorem allRows : StoresOnly allRows := by
  unfold Collection.allRows
  refine bind get fun s => ?_
  dsimp only
  split
  · exact pure _
  · exact bind (onNamedColumn _ _) fun _ => pure _

theorem clause (cl : Clause) : StoresOnly (clause cl) := by
  unfold Collection.clause
  refine bind get fun s => ?_
  dsimp only
  split
  · -- an unorderable column is refused; the literal is read either way
    refine ite (bind (throw _) fun _ => ?_) ?_
    all_goals
      split
      · exact bind (onNamedColumn _ _) fun _ => pure _
      · exact throw _
  · exact pure _

mutual
theorem evaluate (cond : Condition) : StoresOnly (evaluate cond) := by
  match cond with
  | .all =>
    rw [Collection.evaluate]
    exact allRows
  | .clause cl =>
    rw [Collection.evaluate]
    exact clause cl
  | .compound operands connectors =>
    rw [Collection.evaluate]
    exact bind (evaluateAll operands) fun _ => pure _

theorem evaluateAll (conds : List Condition) : StoresOnly (evaluateAll conds) := by
  match conds with
  | [] =>
    rw [Collection.evaluateAll]
    exact pure _
  | cond :: rest =>
    rw [Collection.evaluateAll]
    exact bind (evaluate cond) fun _ => bind (evaluateAll rest) fun _ => pure _
end

theorem query (condition : String) : StoresOnly (query condition) := by
  unfold Collection.query
  refine bind ensureOpen fun _ => ?_
  split
  · exact throw _
  · exact bind ensureOpen fun _ => evaluate _

theorem fetch (i : Nat) (ids : List Nat) (cache : ValueCache) : StoresOnly (fetch i ids cache) := by
  unfold Collection.fetch
  refine bind get fun _ => bind (forIn _ _ fun _ _ => ?_) fun _ => pure _
  split
  · exact pure _
  · exact bind (onNamedColumn _ _) fun _ => pure _

theorem select (m : Matches) (columns : List String) : StoresOnly (select m columns) := by
  unfold Collection.select
  refine bind ensureOpen fun _ => bind get fun s => ?_
  dsimp only
  -- the chosen columns, all or those named, are fetched the same way
  refine ite (bind (pure _) fun _ => ?_) (bind (mapM _ fun _ => ?named) fun _ => ?_)
  case named =>
    split
    · exact pure _
    · exact throw _
  all_goals exact bind (forIn _ _ fun _ _ => bind (fetch _ _ _) fun _ => pure _) fun _ => pure _

end StoresOnly

/-! ## Declaring a column -/

/-- A bound run that answers ran its first part to an answer. -/
theorem ok_of_bind {α β : Type} {x : CollectionOp α} {f : α → CollectionOp β} {s s'' : Disk × Collection}
    {b : β} (h : (x >>= f) s = .ok b s'') : ∃ a s', x s = .ok a s' ∧ f a s' = .ok b s'' := by
  change EStateM.bind x f s = _ at h
  unfold EStateM.bind at h
  cases hx : x s with
  | ok a s' =>
    rw [hx] at h
    exact ⟨a, s', rfl, h⟩
  | error e s' =>
    rw [hx] at h
    cases h

/-- A discarded run that answers ran to an answer. -/
theorem ok_of_discard {α : Type} {x : CollectionOp α} {s s' : Disk × Collection} {a : PUnit}
    (h : Functor.discard x s = .ok a s') : ∃ b, x s = .ok b s' := by
  change EStateM.map _ x s = _ at h
  unfold EStateM.map at h
  cases hx : x s with
  | ok b s₁ =>
    rw [hx] at h
    cases h
    exact ⟨b, rfl⟩
  | error e s₁ =>
    rw [hx] at h
    cases h

/-- `c'` is `c` with another key and other columns: the same place, settings and disposal. -/
def SamePlace (c c' : Collection) : Prop := { c' with key := c.key, columns := c.columns } = c

theorem SamePlace.trans {c₁ c₂ c₃ : Collection} (h₁ : SamePlace c₁ c₂) (h₂ : SamePlace c₂ c₃) :
    SamePlace c₁ c₃ := by
  unfold SamePlace at *
  calc { c₃ with key := c₁.key, columns := c₁.columns }
      = { ({ c₃ with key := c₂.key, columns := c₂.columns } : Collection) with
          key := c₁.key, columns := c₁.columns } := rfl
    _ = c₁ := by rw [h₂, h₁]

theorem Keeps.samePlace {c c' : Collection} (h : c.Keeps c') : SamePlace c c' := by
  unfold SamePlace
  rw [← h.rest]

/-- A check that the collection is open passes only on an open collection, and changes nothing. -/
theorem ensureOpen_ok {s s' : Disk × Collection} {a : Unit} (h : ensureOpen s = .ok a s') :
    s' = s ∧ s.2.disposed = false := by
  simp only [ensureOpen, bind, EStateM.bind, get, getThe, MonadStateOf.get, EStateM.get] at h
  split at h
  next => simp [throw, throwThe, MonadExceptOf.throw, EStateM.throw] at h
  next hopen =>
    simp only [pure, EStateM.pure, EStateM.Result.ok.injEq] at h
    exact ⟨h.2.symm, by simpa using hopen⟩

/-- Writing the metadata puts the bytes of the collection's metadata at its path, and changes
nothing else. -/
theorem writeMetadata_put {d d' : Disk} {c c' : Collection} {a : Unit}
    (h : writeMetadata (d, c) = .ok a (d', c')) :
    d.putFile c.metadataPath (Text.utf8Bytes c.metadata.render) = .ok d' ∧ c' = c := by
  simp only [writeMetadata, bind, EStateM.bind, get, getThe, MonadStateOf.get, EStateM.get] at h
  cases hput : d.putFile c.metadataPath (Text.utf8Bytes c.metadata.render) with
  | ok d₁ =>
    simp only [hput, set, MonadStateOf.set, EStateM.set, EStateM.Result.ok.injEq, Prod.mk.injEq] at h
    obtain ⟨-, rfl, rfl⟩ := h
    exact ⟨rfl, rfl⟩
  | error m => simp [hput, throw, throwThe, MonadExceptOf.throw, EStateM.throw] at h

/-- Whether a name is declared is read off the declarations. -/
theorem position_isSome (c : Collection) (name : String) :
    (c.position name).isSome = c.schema.2.any (·.name == name) := by
  simp [position, schema]

/-- A declaration that succeeds changes the schema by the declaration rule and nothing but the
key and the columns. -/
theorem declareIn_ok {def_ : ColumnDef} {dk dk' : Disk} {c c' : Collection} {b : Bool}
    (h : declareIn def_ (dk, c) = .ok b (dk', c')) :
    c'.schema = declareSchema c.schema def_ ∧ { c' with key := c.key, columns := c.columns } = c := by
  simp only [declareIn, bind, EStateM.bind, get, getThe, MonadStateOf.get, EStateM.get] at h
  split at h
  next hdeclared =>
    -- a declared name: nothing changes
    simp only [pure, EStateM.pure, EStateM.Result.ok.injEq, Prod.mk.injEq] at h
    obtain ⟨-, -, rfl⟩ := h
    rw [declareSchema, if_pos (by rwa [← position_isSome])]
    exact ⟨rfl, rfl⟩
  next hnew =>
    split at h
    next => simp [throw, throwThe, MonadExceptOf.throw, EStateM.throw] at h
    next =>
      cases hs : (openStore c.directory def_ c.settings.textBlockSize).run dk with
      | error e dk'' => simp [onDisk, hs, EStateM.bind] at h
      | ok store dk'' =>
        simp only [onDisk, hs, EStateM.bind, modify, modifyGet, MonadStateOf.modifyGet, EStateM.modifyGet,
          pure, EStateM.pure, EStateM.Result.ok.injEq, Prod.mk.injEq] at h
        obtain ⟨-, -, rfl⟩ := h
        have hfree : ¬(c.schema.2.any (·.name == def_.name)) = true := by rwa [← position_isSome]
        refine ⟨?_, rfl⟩
        rw [declareSchema, if_neg hfree]
        simp [schema]

/-- Declaring a column that succeeds changes the schema by the declaration rule and nothing but
the key and the columns. -/
theorem declareColumn_ok {def_ : ColumnDef} {s s' : Disk × Collection} {a : Unit}
    (h : declareColumn def_ s = .ok a s') :
    s'.2.schema = declareSchema s.2.schema def_ ∧ SamePlace s.2 s'.2 := by
  obtain ⟨_, s₁, hopen, hrest⟩ := ok_of_bind h
  obtain ⟨rfl, -⟩ := ensureOpen_ok hopen
  obtain ⟨b, s₂, hdecl, hmeta⟩ := ok_of_bind hrest
  -- a new column is recorded in the metadata, which changes only the disk
  have hs₂ : s'.2 = s₂.2 := by
    cases b with
    | true => exact (writeMetadata_put hmeta).2
    | false =>
      simp only [if_neg Bool.false_ne_true, pure, EStateM.pure, EStateM.Result.ok.injEq] at hmeta
      rw [hmeta.2]
  rw [hs₂]
  exact declareIn_ok hdecl

/-! ## Runs of calls -/

/-- A call on an open collection: declare a column, insert a row, delete rows, set a column on
rows, select the rows a condition matches, or flush. -/
inductive CollectionEvent
  | declare (d : ColumnDef)
  | insert (row : String → Option Value)
  | delete (ids : List Nat)
  | update (column : String) (ids : List Nat) (v : Value)
  | select (condition : String) (columns : List String)
  | flush

namespace CollectionEvent

/-- Runs a call, dropping its answer. -/
def run : CollectionEvent → CollectionOp Unit
  | .declare d => declareColumn d
  | .insert row => discard (Collection.insert row)
  | .delete ids => discard (Collection.delete ids)
  | .update column ids v => discard (Collection.update column ids v)
  | .select condition columns => discard (do Collection.select (← query condition) columns)
  | .flush => Collection.flush

/-- Runs calls in order, stopping at the first that fails. -/
def runEvents (es : List CollectionEvent) : CollectionOp Unit := es.forM run

/-- The declaration a call makes, if it is one. -/
def declaration? : CollectionEvent → Option ColumnDef
  | .declare d => some d
  | _ => none

/-- A call other than a declaration changes at most the stores of columns. -/
theorem storesOnly {e : CollectionEvent} (he : e.declaration? = none) : StoresOnly e.run := by
  cases e with
  | declare d => cases he
  | insert row => exact StoresOnly.discard (StoresOnly.insert row)
  | delete ids => exact StoresOnly.discard (StoresOnly.delete ids)
  | update column ids v => exact StoresOnly.discard (StoresOnly.update column ids v)
  | select condition columns =>
    exact StoresOnly.discard (StoresOnly.bind (StoresOnly.query condition) fun m => StoresOnly.select m columns)
  | flush => exact StoresOnly.flush

/-- A call that succeeds changes the schema by its declaration, if it makes one. -/
theorem run_ok {e : CollectionEvent} {s s' : Disk × Collection} {a : Unit} (h : e.run s = .ok a s') :
    s'.2.schema = e.declaration?.toList.foldl declareSchema s.2.schema ∧ SamePlace s.2 s'.2 := by
  cases hd : e.declaration? with
  | none =>
    have hkeeps := (storesOnly hd).of_ok h
    exact ⟨hkeeps.schema, hkeeps.samePlace⟩
  | some d =>
    cases e with
    | declare d' =>
      cases hd
      exact declareColumn_ok h
    | _ => cases hd

/-- A run of calls that all succeed changes the schema by its declarations, in order. -/
theorem runEvents_ok (es : List CollectionEvent) {s s' : Disk × Collection} (h : runEvents es s = .ok () s') :
    s'.2.schema = (es.filterMap declaration?).foldl declareSchema s.2.schema ∧ SamePlace s.2 s'.2 := by
  induction es generalizing s with
  | nil =>
    cases h
    exact ⟨rfl, rfl⟩
  | cons e es ih =>
    have h' : (e.run >>= fun _ => runEvents es) s = .ok () s' := h
    obtain ⟨_, s₁, hstep, hrest⟩ := ok_of_bind h'
    obtain ⟨hsch₁, hplace₁⟩ := run_ok hstep
    obtain ⟨hsch, hplace⟩ := ih hrest
    refine ⟨?_, hplace₁.trans hplace⟩
    rw [hsch, hsch₁, List.filterMap_cons]
    cases e.declaration? <;> rfl

/-- From a new collection, a run of calls that all succeed leaves the key the rule chooses from the
run's new declarations, those declarations unmarked in order, and the collection where it was. -/
theorem runEvents_key_rule (es : List CollectionEvent) {dk dk' : Disk} {c₀ c : Collection}
    (hkey : c₀.key = none) (hcols : c₀.columns = #[]) (h : runEvents es (dk, c₀) = .ok () (dk', c)) :
    c.key = keyRule (freshFrom [] (es.filterMap declaration?)) ∧
      c.columns.toList.map (·.declared) =
        (freshFrom [] (es.filterMap declaration?)).map (fun d => { d with key := false }) ∧
      SamePlace c₀ c := by
  obtain ⟨hsch, hplace⟩ := runEvents_ok es h
  have hnew : c₀.schema = (keyRule [], ([].map fun d : ColumnDef => { d with key := false }).toArray) := by
    simp [schema, hkey, hcols]
  rw [hnew, foldl_declareSchema] at hsch
  simp only [List.map_nil, List.nil_append] at hsch
  refine ⟨congrArg Prod.fst hsch, ?_, hplace⟩
  have hcols' := congrArg (fun p => p.2.toList) hsch
  simpa [schema] using hcols'

end CollectionEvent

end Collection

end ColumnDb
