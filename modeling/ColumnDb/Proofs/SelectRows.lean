import Mathlib
import ColumnDb.Proofs.CollectionModel

/-!
# Selecting the rows of a result

A result keeps, beside its ids, the values its clauses read while the condition was evaluated,
by column name and id. Selecting builds one row per id: for each requested column, the value the
result keeps for it at that id if there is one, and otherwise the value the column holds now.

Over a collection whose columns serve their values (`Collection.Stores`), evaluating keeps only
values the columns hold (`evaluate_agrees`), so selecting right after the query reads every
column's value (`select_of_query`). A later select still prefers the kept values: a write made
after the query to a column the condition read is not seen (`select_after_update_keeps_read_value`).

Every collection a run of writes builds from a new one stores its rows so
(`CollectionEvent.runEvents_stores`), and its searchable columns index them, so evaluating a
condition over it fails with its first faulty clause or answers the ids its clauses select
(`evaluate_selects`).
-/

set_option autoImplicit false

namespace ColumnDb

open ColumnDb.Disk ColumnDb.Column ColumnDb.Query ColumnDb.Tree ColumnDb.Blob ColumnDb.Slot

/-! ## Rows -/

namespace Row

/-- Setting a column of a row: that column reads the new value, every other the old one. -/
@[simp] theorem lookup_assign (n n' : String) (v : Value) (row : Row) :
    (Row.assign n v row).lookup n' = if n' = n then some v else row.lookup n' := by
  induction row with
  | nil => simp [Row.assign, lookup_cons_ite]
  | cons p rest ih =>
    obtain ⟨k, w⟩ := p
    unfold Row.assign
    split_ifs <;> simp_all [lookup_cons_ite]

/-- Sets a column of a row if it is given a value. -/
def put (row : Row) (p : String × Option Value) : Row :=
  match p.2 with
  | some v => row.assign p.1 v
  | none => row

/-- Builds a row from columns in turn, each with its value if it has one. -/
def gather (cols : List (String × Option Value)) : Row := cols.foldl put []

/-- The values given for a column, in order. -/
def givenFor (n : String) (cols : List (String × Option Value)) : List Value :=
  cols.filterMap fun p => if p.1 = n then p.2 else none

theorem lookup_foldl_put (n : String) :
    ∀ (cols : List (String × Option Value)) (row : Row),
      (cols.foldl put row).lookup n = ((givenFor n cols).getLast?).or (row.lookup n)
  | [], row => by simp [givenFor]
  | p :: cols, row => by
    rw [List.foldl_cons, lookup_foldl_put n cols (put row p)]
    obtain ⟨k, v?⟩ := p
    cases v? with
    | none => simp [put, givenFor]
    | some v =>
      by_cases hk : k = n
      · subst hk
        simp [put, givenFor, List.getLast?_cons]
      · simp [put, givenFor, hk, Ne.symm hk]

/-- A gathered row reads, for a column, the last value given for it. -/
theorem lookup_gather (n : String) (cols : List (String × Option Value)) :
    (gather cols).lookup n = (givenFor n cols).getLast? := by
  simp [gather, lookup_foldl_put]

end Row

/-! ## Columns holding values -/

/-- Reading an id of a column answers its value and leaves a column that serves the same. -/
theorem Column.Serves.get {col : Column} {d : Disk} {R : List (Nat × Value)} {v : Nat → Option Value}
    (h : col.Serves d R v) (id : Nat) :
    ∃ st, ColumnStore.get id (d, col.store) = .ok (v id) (d, st) ∧ { col with store := st }.Serves d R v := by
  unfold Column.Serves at h
  split at h
  · rename_i t hst
    obtain ⟨hord, hkind, hrows, hv⟩ := h
    obtain ⟨t', hrun, hrows', hkeep⟩ := hrows.get id
    refine ⟨.ordered t', ?_, ?_⟩
    · rw [hst, hv]
      simp only [ColumnStore.get, ColumnStore.dispatch, ColumnStore.onTree, EStateM.run, hrun]
    · exact ⟨hord, hkeep.kind.trans hkind, hrows', hv⟩
  · rename_i t hst
    obtain ⟨hord, cm, htracks, hv⟩ := h
    rw [hst] at htracks
    obtain ⟨st, hrun, htracks', -⟩ := htracks.get id
    refine ⟨st, by rw [hst, hv]; exact hrun, ?_⟩
    -- a text store stands only for a text model, which only a text store stands for
    cases cm with
    | tree k cap m => exact htracks.elim
    | text p m =>
      unfold Column.Serves
      split
      next t' hst' =>
        change st = .ordered t' at hst'
        rw [hst'] at htracks'
        exact htracks'.elim
      next => exact ⟨hord, _, htracks', hv⟩

section Ordered

variable {col : Column} {d : Disk} {R : List (Nat × Value)} {v : Nat → Option Value}

/-- A searchable column that serves rows is a tree of its kind holding them. -/
theorem Column.Serves.ordered (h : col.Serves d R v) (hord : col.declared.isOrderable = true) :
    ∃ t, col.store = .ordered t ∧ t.kind = col.declared.kind ∧ t.Rows d R ∧ ∀ id, v id = R.lookup id := by
  unfold Column.Serves at h
  split at h
  · rename_i t hst
    exact ⟨t, hst, h.2⟩
  · rw [h.1] at hord
    cases hord

/-- A row of a searchable column gives the column's value at its id. -/
theorem Column.Serves.value_of_mem (h : col.Serves d R v) (hord : col.declared.isOrderable = true)
    {p : Nat × Value} (hp : p ∈ R) : v p.1 = some p.2 := by
  obtain ⟨t, -, -, hrows, hv⟩ := h.ordered hord
  rw [hv, hrows.lookup_of_mem hp]

/-- Listing a searchable column answers its rows and leaves a column that serves the same. -/
theorem Column.Serves.all (h : col.Serves d R v) (hord : col.declared.isOrderable = true) :
    ∃ st, ColumnStore.all (d, col.store) = .ok R (d, st) ∧ { col with store := st }.Serves d R v := by
  obtain ⟨t, hst, hkind, hrows, hv⟩ := h.ordered hord
  obtain ⟨t', hrun, hrows', hkeep⟩ := hrows.all
  refine ⟨.ordered t', ?_, hord, hkeep.kind.trans hkind, hrows', hv⟩
  rw [hst]
  simp only [ColumnStore.all, ColumnStore.dispatch, ColumnStore.onTree, EStateM.run, hrun]

/-- Searching a searchable column with an operand of its kind answers the rows whose value
satisfies the comparison, and leaves a column that serves the same. -/
theorem Column.Serves.range (h : col.Serves d R v) (hord : col.declared.isOrderable = true) (cmp : Comparison)
    {o : Value} (ho : o.kind = col.declared.kind) :
    ∃ st, ColumnStore.range cmp o (d, col.store) = .ok (R.filter fun row => cmp.accepts (row.2.compare o)) (d, st) ∧
      { col with store := st }.Serves d R v := by
  obtain ⟨t, hst, hkind, hrows, hv⟩ := h.ordered hord
  obtain ⟨t', hrun, hrows', hkeep⟩ := hrows.range cmp (ho.trans hkind.symm)
  refine ⟨.ordered t', ?_, hord, hkeep.kind.trans hkind, hrows', hv⟩
  rw [hst]
  simp only [ColumnStore.range, ho.trans hkind.symm, beq_self_eq_true, if_true, ColumnStore.onTree, EStateM.run, hrun]

end Ordered

namespace Collection

variable {c : Collection} {d : Disk} {R : Nat → List (Nat × Value)} {V : Nat → Nat → Option Value}

/-- Giving a column a store that serves the same keeps what every column serves. -/
theorem Stores.setStore (h : c.Stores d R V) {i : Nat} {col : Column} (hcol : c.columns[i]? = some col)
    {st : ColumnStore} (hst : { col with store := st }.Serves d (R i) (V i)) :
    { c with columns := c.columns.set! i { col with store := st } }.Stores d R V := by
  have hsch := schema_setStore hcol st
  -- the declarations, hence the key and the positions, are those of `c`
  have hdecl := fun j col' (hj : (c.columns.set! i { col with store := st })[j]? = some col') =>
    declared_of_setStore hcol st hj
  refine ⟨fun j col' hj => ?_, fun k col' hk hj => ?_, fun j col' hj => ?_⟩
  · rw [getElem?_setStore hcol] at hj
    split_ifs at hj with hij
    · subst hij
      cases hj
      exact hst
    · exact h.serves j col' hj
  · obtain ⟨col₀, hj₀, hd⟩ := hdecl k col' hj
    rw [hd]
    exact h.keyed k col₀ ((keyIndex_of_schema hsch).symm.trans hk) hj₀
  · obtain ⟨col₀, hj₀, hd⟩ := hdecl j col' hj
    rw [hd, position_of_schema hsch]
    exact h.named j col₀ hj₀

/-- A state that reading passes through: the disk is `d`, and the collection has the schema and
the disposal of `c₀`, and its columns serve `R` and `V`. -/
structure Serving (c₀ : Collection) (d : Disk) (R : Nat → List (Nat × Value)) (V : Nat → Nat → Option Value)
    (s : Disk × Collection) : Prop where
  disk : s.1 = d
  stores : s.2.Stores d R V
  schema : s.2.schema = c₀.schema
  disposed : s.2.disposed = c₀.disposed

variable {c₀ : Collection}

theorem Serving.setStore (h : Serving c₀ d R V (d, c)) {i : Nat} {col : Column} (hcol : c.columns[i]? = some col)
    {st : ColumnStore} (hst : { col with store := st }.Serves d (R i) (V i)) :
    Serving c₀ d R V (d, { c with columns := c.columns.set! i { col with store := st } }) :=
  ⟨rfl, h.stores.setStore hcol hst, (schema_setStore hcol st).trans h.schema, h.disposed⟩

/-- A serving state has the columns of `c₀`, with their declarations. -/
theorem Serving.column {s : Disk × Collection} (h : Serving c₀ d R V s) {i : Nat} {col₀ : Column}
    (hcol : c₀.columns[i]? = some col₀) : ∃ col : Column, s.2.columns[i]? = some col ∧ col.declared = col₀.declared := by
  have hdecl := declared_of_schema h.schema i
  rw [hcol, Option.map_some] at hdecl
  obtain ⟨col, hc, hd⟩ := Option.map_eq_some_iff.mp hdecl
  exact ⟨col, hc, hd⟩

/-- Reading an id of a column answers its value and keeps a serving state. -/
theorem Serving.get {s : Disk × Collection} (h : Serving c₀ d R V s) {i : Nat} (hi : i < c₀.columns.size)
    (id : Nat) : ∃ s', onNamedColumn i (ColumnStore.get id) s = .ok (V i id) s' ∧ Serving c₀ d R V s' := by
  obtain ⟨d', c⟩ := s
  obtain ⟨col, hcol, -⟩ := h.column (Array.getElem?_eq_getElem hi)
  have hd : d' = d := h.disk
  subst hd
  obtain ⟨st, hrun, hst⟩ := (h.stores.serves i col hcol).get id
  exact ⟨_, onNamedColumn_ok hcol hrun, h.setStore hcol hst⟩

/-! ## Fetching a column's values -/

/-- A loop that pushes, for each element, a value fixed by the element alone, while an invariant
holds. -/
theorem forIn_push {σ ε α β : Type} (Inv : σ → Prop) (g : α → β)
    (f : α → Array β → EStateM ε σ (ForInStep (Array β))) :
    ∀ (l : List α), (∀ a ∈ l, ∀ out s, Inv s → ∃ s', f a out s = .ok (.yield (out.push (g a))) s' ∧ Inv s') →
      ∀ (out : Array β) (s : σ), Inv s → ∃ s', forIn l out f s = .ok (out ++ (l.map g).toArray) s' ∧ Inv s'
  | [], _, out, s, hs => ⟨s, by simp [pure, EStateM.pure], hs⟩
  | a :: l, hf, out, s, hs => by
    obtain ⟨s₁, h₁, hs₁⟩ := hf a List.mem_cons_self out s hs
    obtain ⟨s₂, h₂, hs₂⟩ := forIn_push Inv g f l (fun a' ha' => hf a' (List.mem_cons_of_mem a ha'))
      (out.push (g a)) s₁ hs₁
    refine ⟨s₂, ?_, hs₂⟩
    rw [List.forIn_cons]
    simp only [bind, EStateM.bind, h₁, h₂]
    simp

/-- Fetching a column's values for ids takes each from the cache when it has it, and reads the
column otherwise. -/
theorem Serving.fetch {s : Disk × Collection} (h : Serving c₀ d R V s) {i : Nat} {col₀ : Column}
    (hcol : c₀.columns[i]? = some col₀) (ids : List Nat) (cache : ValueCache) :
    ∃ s', Collection.fetch i ids cache s =
      .ok (ids.map fun id => ((cache.getD col₀.declared.name ∅)[id]?).or (V i id)).toArray s' ∧
      Serving c₀ d R V s' := by
  obtain ⟨col, hc, hd⟩ := h.column hcol
  have hi : i < c₀.columns.size := (Array.getElem?_eq_some_iff.mp hcol).1
  -- each id's value is pushed as the cache or the column gives it
  have hstep : ∀ id (out : Array (Option Value)) s, Serving c₀ d R V s →
      ∃ s', (match (cache.getD col₀.declared.name ∅)[id]? with
        | some v => pure (ForInStep.yield (out.push (some v)))
        | none => EStateM.bind (onNamedColumn i (ColumnStore.get id)) fun x =>
            pure (ForInStep.yield (out.push x)) : CollectionOp (ForInStep (Array (Option Value)))) s =
        .ok (.yield (out.push (((cache.getD col₀.declared.name ∅)[id]?).or (V i id)))) s' ∧ Serving c₀ d R V s' := by
    intro id out s hs
    cases hv : (cache.getD col₀.declared.name ∅)[id]? with
    | some v => exact ⟨s, rfl, hs⟩
    | none =>
      obtain ⟨s', hrun, hs'⟩ := hs.get hi id
      exact ⟨s', by simp [EStateM.bind, hrun, pure, EStateM.pure], hs'⟩
  obtain ⟨s', hrun, hs'⟩ := forIn_push (Serving c₀ d R V) _ _ ids (fun id _ => hstep id) #[] s h
  obtain ⟨d', c⟩ := s
  unfold Collection.fetch
  simp only [bind, EStateM.bind, getThe, MonadStateOf.get, EStateM.get, MonadState.get]
  simp only [hc, Option.map_some, Option.getD_some, hd]
  erw [hrun]
  exact ⟨s', by simp [pure, EStateM.pure], hs'⟩

/-! ## Selecting -/

/-- The name of the column at a position. -/
def nameAt (c : Collection) (j : Nat) : String := (c.columns[j]?.map (·.declared.name)).getD ""

/-- The positions of the columns asked for: every column when none is named. -/
def requested (c : Collection) (columns : List String) : List Nat :=
  if columns.isEmpty then List.range c.columns.size else columns.filterMap c.position

/-- The row of the asked columns, each with the value it is given at its position. -/
def selected (c : Collection) (columns : List String) (value : Nat → Option Value) : Row :=
  Row.gather ((c.requested columns).map fun j => (c.nameAt j, value j))

theorem lt_of_mem_requested {columns : List String} {j : Nat} (h : j ∈ c.requested columns) :
    j < c.columns.size := by
  unfold requested at h
  split at h
  · exact List.mem_range.mp h
  · obtain ⟨n, -, hn⟩ := List.mem_filterMap.mp h
    exact position_lt hn

theorem nameAt_of_schema (h : c.schema = c₀.schema) (j : Nat) : c.nameAt j = c₀.nameAt j := by
  have hnames : ∀ c : Collection, c.nameAt j = ((c.columns[j]?.map (·.declared)).map (·.name)).getD "" := by
    intro c
    rw [nameAt, Option.map_map]
    rfl
  rw [hnames, hnames, declared_of_schema h j]

theorem requested_of_schema (h : c.schema = c₀.schema) (columns : List String) :
    c.requested columns = c₀.requested columns := by
  have hsize : c.columns.size = c₀.columns.size := by
    simpa [schema] using congrArg (fun s => s.2.size) h
  simp only [requested, hsize, position_of_schema h]

/-- Collections of one schema select the same row from the same values. -/
theorem selected_of_schema (h : c.schema = c₀.schema) (columns : List String) (value : Nat → Option Value) :
    c.selected columns value = c₀.selected columns value := by
  simp only [selected, requested_of_schema h, nameAt_of_schema h]

theorem selected_congr {columns : List String} {value value' : Nat → Option Value}
    (h : ∀ j ∈ c.requested columns, value j = value' j) : c.selected columns value = c.selected columns value' := by
  unfold selected
  congr 1
  exact List.map_congr_left fun j hj => by rw [h j hj]

theorem getLast?_filterMap_eq {p : Nat} {x : Option Value} :
    ∀ l : List Nat, (l.filterMap fun j => if j = p then x else none).getLast? = if p ∈ l then x else none
  | [] => rfl
  | j :: l => by
    have ih := getLast?_filterMap_eq (p := p) (x := x) l
    by_cases hj : j = p
    · subst hj
      cases x with
      | none => simp
      | some v => by_cases hl : j ∈ l <;> simp [List.getLast?_cons, ih, hl]
    · simp [hj, Ne.symm hj, ih]

/-- When each column is the first of its name, a selected row reads, for a name, the value given at
that name's position if the position is requested, and nothing otherwise. -/
theorem lookup_selected (hnamed : ∀ j (col : Column), c.columns[j]? = some col → c.position col.declared.name = some j)
    (columns : List String) (value : Nat → Option Value) (n : String) :
    (c.selected columns value).lookup n = (c.position n).bind fun j => if j ∈ c.requested columns then value j else none := by
  rw [selected, Row.lookup_gather, Row.givenFor, List.filterMap_map]
  -- a requested position has the name `n` exactly when `n` names that position
  have hname : ∀ j ∈ c.requested columns, c.nameAt j = n ↔ c.position n = some j := by
    intro j hj
    have hlt := lt_of_mem_requested hj
    have hnm : c.nameAt j = c.columns[j].declared.name := by simp [nameAt, Array.getElem?_eq_getElem hlt]
    constructor
    · intro h
      rw [← h, hnm]
      exact hnamed j _ (Array.getElem?_eq_getElem hlt)
    · intro h
      obtain ⟨_, hfound, -⟩ := Array.findIdx?_eq_some_iff_getElem.mp h
      rw [hnm]
      simpa using hfound
  cases hp : c.position n with
  | none =>
    rw [List.filterMap_eq_nil_iff.mpr fun j hj => ?_]
    · rfl
    · have hne : ¬c.nameAt j = n := fun h => by rw [(hname j hj).mp h] at hp; cases hp
      simp [hne]
  | some p =>
    rw [List.filterMap_congr (g := fun j => if j = p then value p else none) fun j hj => ?_]
    · rw [getLast?_filterMap_eq]
      rfl
    · by_cases hjp : j = p
      · subst hjp
        simp [(hname j hj).mpr hp]
      · have hne : ¬c.nameAt j = n := fun h => hjp (Option.some_inj.mp (((hname j hj).mp h).symm.trans hp))
        simp [hne, hjp]

/-- Mapping a step that answers a value fixed by the element and changes nothing. -/
theorem mapM_pure {σ ε α β : Type} (f : α → EStateM ε σ β) (g : α → β) :
    ∀ (l : List α), (∀ a ∈ l, ∀ s, f a s = .ok (g a) s) → ∀ s, l.mapM f s = .ok (l.map g) s
  | [], _, s => rfl
  | a :: l, hf, s => by
    rw [List.mapM_cons]
    simp only [bind, EStateM.bind, hf a List.mem_cons_self s,
      mapM_pure f g l (fun a' ha' => hf a' (List.mem_cons_of_mem a ha')) s]
    rfl

/-- Rows assembled one per index from fetched columns are the rows gathered per id. -/
theorem rows_of_fetched (F : Nat → Row → String × Array (Option Value) → Row)
    (hF : ∀ k row name (values : Array (Option Value)), F k row (name, values) = Row.put row (name, values[k]?.join))
    (ids targets : List Nat) (name : Nat → String) (val : Nat → Nat → Option Value) :
    (List.range ids.length).map (fun k => Array.foldl (F k) [] (#[] ++ (targets.map fun j =>
        (name j, (ids.map (val j)).toArray)).toArray)) =
      ids.map fun id => Row.gather (targets.map fun j => (name j, val j id)) := by
  apply List.ext_getElem (by simp)
  intro k hk _
  have hk' : k < ids.length := by simpa using hk
  simp only [List.getElem_map, List.getElem_range, Array.empty_append, List.foldl_toArray', Row.gather,
    List.foldl_map]
  congr 1
  funext row j
  rw [hF]
  simp [List.getElem?_eq_getElem hk']

/-- Fetching the asked columns one after the other: each pushes its name and its values, each
from the cache when it has it and from the column otherwise. -/
theorem Serving.fetchAll {s : Disk × Collection} (h : Serving c₀ d R V s) (m : Matches) (targets : List Nat)
    (htargets : ∀ j ∈ targets, j < c₀.columns.size)
    (body : Nat → Array (String × Array (Option Value)) → CollectionOp (ForInStep (Array (String × Array (Option Value)))))
    (hbody : ∀ j out s, body j out s = EStateM.bind (Collection.fetch j m.ids m.cache)
      (fun x => pure (ForInStep.yield (out.push (c₀.nameAt j, x)))) s) :
    ∃ s', forIn targets #[] body s = .ok (#[] ++ (targets.map fun j => (c₀.nameAt j,
      (m.ids.map fun id => ((m.cache.getD (c₀.nameAt j) ∅)[id]?).or (V j id)).toArray)).toArray) s' ∧
      Serving c₀ d R V s' := by
  refine forIn_push (Serving c₀ d R V) _ body targets (fun j hj out s hs => ?_) #[] s h
  obtain ⟨col₀, hcol⟩ : ∃ col₀, c₀.columns[j]? = some col₀ :=
    ⟨_, Array.getElem?_eq_getElem (htargets j hj)⟩
  obtain ⟨s', hrun, hs'⟩ := hs.fetch hcol m.ids m.cache
  have hname : c₀.nameAt j = col₀.declared.name := by simp [nameAt, hcol]
  refine ⟨s', ?_, hs'⟩
  rw [hbody, hname]
  simp only [EStateM.bind, hrun]
  rfl

/-- Fetching the asked columns and folding them into one row per id gathers, for each id, the
value each column gives it. -/
theorem Serving.fetchRows (h : Serving c d R V (d, c)) (m : Matches) (targets : List Nat)
    (F : Nat → Row → String × Array (Option Value) → Row)
    (hF : ∀ k row name (values : Array (Option Value)), F k row (name, values) = Row.put row (name, values[k]?.join))
    (hlt : ∀ j ∈ targets, j < c.columns.size) :
    ∃ s', EStateM.bind (forIn targets #[] fun i out => EStateM.bind (Collection.fetch i m.ids m.cache)
        fun x => pure (ForInStep.yield (out.push ((Option.map (fun x => x.declared.name) c.columns[i]?).getD "", x))))
      (fun fetched => pure ((List.range m.ids.length).map fun k => Array.foldl (F k) [] fetched)) (d, c) =
      .ok (m.ids.map fun id => Row.gather (targets.map fun j =>
        (c.nameAt j, ((m.cache.getD (c.nameAt j) ∅)[id]?).or (V j id)))) s' ∧ Serving c d R V s' := by
  obtain ⟨s', hrun, hs'⟩ := h.fetchAll m targets hlt _ (fun _ _ _ => rfl)
  refine ⟨s', ?_, hs'⟩
  simp only [EStateM.bind]
  erw [hrun]
  rw [← rows_of_fetched F hF m.ids targets c.nameAt]
  rfl

theorem Serving.select (h : Serving c d R V (d, c)) (hopen : c.disposed = false) (m : Matches)
    (columns : List String) (hknown : ∀ n ∈ columns, (c.position n).isSome) :
    ∃ s', Collection.select m columns (d, c) =
      .ok (m.ids.map fun id => c.selected columns fun j => ((m.cache.getD (c.nameAt j) ∅)[id]?).or (V j id)) s' ∧
      Serving c d R V s' := by
  unfold Collection.select
  simp only [ensureOpen, bind, EStateM.bind, getThe, MonadStateOf.get, EStateM.get, MonadState.get, hopen,
    Bool.false_eq_true, if_false, pure, EStateM.pure]
  by_cases he : columns.isEmpty = true
  · rw [if_pos he]
    have hreq : c.requested columns = List.range c.columns.size := by simp [requested, he]
    simp only [selected, hreq]
    refine h.fetchRows m _ _ (fun k row name values => ?_) fun j hj => List.mem_range.mp hj
    -- the row fold of the definition sets a column exactly when its value is given
    cases values[k]? with
    | none => rfl
    | some o => cases o <;> rfl
  · rw [if_neg he]
    -- every named column is found, so the positions are those `requested` lists
    have hpos : ∀ n ∈ columns, c.position n = some ((c.position n).getD 0) := fun n hn => by
      obtain ⟨i, hi⟩ := Option.isSome_iff_exists.mp (hknown n hn)
      rw [hi, Option.getD_some]
    have hreq : c.requested columns = columns.map fun n => (c.position n).getD 0 := by
      simp only [requested, he, if_false, Bool.false_eq_true]
      rw [← List.filterMap_eq_map']
      exact List.filterMap_congr hpos
    simp only [EStateM.bind]
    rw [mapM_pure _ (fun n => (c.position n).getD 0) columns (fun n hn s => by rw [hpos n hn]; rfl)]
    simp only [selected, hreq]
    refine h.fetchRows m _ _ (fun k row name values => ?_) fun j hj => ?_
    · cases values[k]? with
      | none => rfl
      | some o => cases o <;> rfl
    · obtain ⟨n, hn, rfl⟩ := List.mem_map.mp hj
      exact position_lt (hpos n hn)

end Collection

/-! ## Values a result keeps -/

section Cache

/-- Inserting pairs one after another: an id then reads a value it had before or one of the pairs. -/
theorem getElem?_foldl_insert (g : Std.TreeMap Nat Value → Nat × Value → Std.TreeMap Nat Value)
    (hg : ∀ m p, g m p = m.insert p.1 p.2) {id : Nat} {v : Value} :
    ∀ (l : List (Nat × Value)) (m : Std.TreeMap Nat Value), (l.foldl g m)[id]? = some v → m[id]? = some v ∨ (id, v) ∈ l
  | [], m, h => .inl h
  | p :: l, m, h => by
    rcases getElem?_foldl_insert g hg l (g m p) h with h' | h'
    · rw [hg, Std.TreeMap.getElem?_insert] at h'
      split at h'
      · rename_i heq
        cases h'
        have hp : p = (id, p.2) := Prod.ext (compare_eq_iff_eq.mp heq) rfl
        exact .inr (hp ▸ List.mem_cons_self)
      · exact .inl h'
    · exact .inr (List.mem_cons_of_mem p h')

/-- Adding pairs an id lacks: an id then reads a value it had before or one of the pairs. -/
theorem getElem?_foldl_keep {id : Nat} {v : Value} :
    ∀ (l : List (Nat × Value)) (m : Std.TreeMap Nat Value),
      (l.foldl (fun m p => if m.contains p.1 then m else m.insert p.1 p.2) m)[id]? = some v →
        m[id]? = some v ∨ (id, v) ∈ l
  | [], m, h => .inl h
  | p :: l, m, h => by
    rcases getElem?_foldl_keep l _ h with h' | h'
    · dsimp only at h'
      split at h'
      · exact .inl h'
      · rw [Std.TreeMap.getElem?_insert] at h'
        split at h'
        · rename_i heq
          cases h'
          have hp : p = (id, p.2) := Prod.ext (compare_eq_iff_eq.mp heq) rfl
          exact .inr (hp ▸ List.mem_cons_self)
        · exact .inl h'
    · exact .inr (List.mem_cons_of_mem p h')

/-- Merging columns into a cache one after another, each adding the values its column lacks: a
value then read is one the cache had or one of a merged column's. -/
theorem getD_foldl_merge {n : String} {id : Nat} {v : Value} :
    ∀ (l : List (String × Std.TreeMap Nat Value)) (acc : ValueCache),
      ((l.foldl (fun acc p => acc.insert p.1 (p.2.foldl (fun m id v => if m.contains id then m else m.insert id v)
        (acc.getD p.1 ∅))) acc).getD n ∅)[id]? = some v →
      (acc.getD n ∅)[id]? = some v ∨ ∃ vals, (n, vals) ∈ l ∧ vals[id]? = some v
  | [], acc, h => .inl h
  | p :: l, acc, h => by
    rcases getD_foldl_merge l _ h with h' | ⟨vals, hmem, hv⟩
    · rw [Std.TreeMap.getD_insert] at h'
      split at h'
      · rename_i heq
        have hn : p.1 = n := compare_eq_iff_eq.mp heq
        rw [Std.TreeMap.foldl_eq_foldl_toList] at h'
        rcases getElem?_foldl_keep _ _ h' with h'' | h''
        · exact .inl (by rw [← hn]; exact h'')
        · exact .inr ⟨p.2, by rw [← hn]; exact List.mem_cons_self, Std.TreeMap.mem_toList_iff_getElem?_eq_some.mp h''⟩
      · exact .inl h'
    · exact .inr ⟨vals, List.mem_cons_of_mem p hmem, hv⟩

/-- A value of a merged cache is one of the left cache or one of the right. -/
theorem ValueCache.getD_merge {a b : ValueCache} {n : String} {id : Nat} {v : Value}
    (h : ((a.merge b).getD n ∅)[id]? = some v) : (a.getD n ∅)[id]? = some v ∨ (b.getD n ∅)[id]? = some v := by
  unfold ValueCache.merge at h
  rw [Std.TreeMap.foldl_eq_foldl_toList] at h
  rcases getD_foldl_merge _ a h with h' | ⟨vals, hmem, hv⟩
  · exact .inl h'
  · refine .inr ?_
    rw [Std.TreeMap.getD_eq_getD_getElem?, Std.TreeMap.mem_toList_iff_getElem?_eq_some.mp hmem]
    exact hv

namespace Collection

variable {c : Collection} {V : Nat → Nat → Option Value}

/-- Every value a cache keeps for a column name is the value of that column at that id. -/
def CacheAgrees (c : Collection) (V : Nat → Nat → Option Value) (cache : ValueCache) : Prop :=
  ∀ n id v, (cache.getD n ∅)[id]? = some v → ∃ i, c.position n = some i ∧ V i id = some v

theorem cacheAgrees_empty : CacheAgrees c V ∅ := fun n id v h => by
  simp at h

theorem CacheAgrees.merge {a b : ValueCache} (ha : CacheAgrees c V a) (hb : CacheAgrees c V b) :
    CacheAgrees c V (a.merge b) := fun n id v h =>
  (ValueCache.getD_merge h).elim (ha n id v) (hb n id v)

/-- The values of rows read from a column agree when they are the column's values. -/
theorem cacheAgrees_ofRows {n : String} {i : Nat} (hpos : c.position n = some i) {rows : List (Nat × Value)}
    (hrows : ∀ p ∈ rows, V i p.1 = some p.2) : CacheAgrees c V (Matches.ofRows n rows).cache := by
  intro n' id v h
  simp only [Matches.ofRows, Std.TreeMap.getD_insert] at h
  split at h
  · rename_i heq
    have hn : n = n' := compare_eq_iff_eq.mp heq
    rcases getElem?_foldl_insert _ (fun _ _ => rfl) rows ∅ h with h' | h'
    · simp at h'
    · exact ⟨i, hn ▸ hpos, hrows _ h'⟩
  · simp at h

theorem CacheAgrees.and {a b : Matches} (ha : CacheAgrees c V a.cache) (hb : CacheAgrees c V b.cache) :
    CacheAgrees c V (a.and b).cache :=
  ha.merge hb

theorem CacheAgrees.or {a b : Matches} (ha : CacheAgrees c V a.cache) (hb : CacheAgrees c V b.cache) :
    CacheAgrees c V (a.or b).cache := by
  unfold Matches.or
  exact ha.merge hb

theorem cacheAgrees_joinAnds : ∀ (pairs : List (Connector × Matches)) (cur : Matches),
    CacheAgrees c V cur.cache → (∀ p ∈ pairs, CacheAgrees c V p.2.cache) →
      ∀ m ∈ Matches.joinAnds cur pairs, CacheAgrees c V m.cache
  | [], cur, hc, _ => by
    intro m hm
    rw [Matches.joinAnds, List.mem_singleton] at hm
    exact hm ▸ hc
  | (.and, m') :: rest, cur, hc, hp => by
    rw [Matches.joinAnds]
    exact cacheAgrees_joinAnds rest _ (hc.and (hp _ List.mem_cons_self)) fun p hp' => hp p (List.mem_cons_of_mem _ hp')
  | (.or, m') :: rest, cur, hc, hp => by
    intro m hm
    rw [Matches.joinAnds, List.mem_cons] at hm
    rcases hm with rfl | hm
    · exact hc
    · exact cacheAgrees_joinAnds rest m' (hp _ List.mem_cons_self) (fun p hp' => hp p (List.mem_cons_of_mem _ hp')) m hm

theorem cacheAgrees_joinOrs : ∀ ms : List Matches, (∀ m ∈ ms, CacheAgrees c V m.cache) →
    CacheAgrees c V (Matches.joinOrs ms).cache
  | [], _ => cacheAgrees_empty
  | [m], h => h m List.mem_cons_self
  | m :: m' :: rest, h => by
    have hor : Matches.joinOrs (m :: m' :: rest) = m.or (Matches.joinOrs (m' :: rest)) := rfl
    rw [hor]
    exact (h m List.mem_cons_self).or (cacheAgrees_joinOrs (m' :: rest) fun x hx => h x (List.mem_cons_of_mem _ hx))

/-- Joining results keeps only values the operands kept. -/
theorem cacheAgrees_combine (results : List Matches) (connectors : List Connector)
    (h : ∀ m ∈ results, CacheAgrees c V m.cache) : CacheAgrees c V (Matches.combine results connectors).cache := by
  cases results with
  | nil => exact cacheAgrees_empty
  | cons first rest =>
    exact cacheAgrees_joinOrs _ (cacheAgrees_joinAnds _ first (h first List.mem_cons_self) fun p hp =>
      h p.2 (List.mem_cons_of_mem _ (List.of_mem_zip hp).2))

/-- When each column is the first of its name, a value the cache keeps for a column is the one
the column holds, so preferring the cache reads the column's value. -/
theorem CacheAgrees.or_eq {cache : ValueCache} (h : CacheAgrees c V cache)
    (hnamed : ∀ j (col : Column), c.columns[j]? = some col → c.position col.declared.name = some j)
    {j : Nat} (hj : j < c.columns.size) (id : Nat) : ((cache.getD (c.nameAt j) ∅)[id]?).or (V j id) = V j id := by
  cases hv : (cache.getD (c.nameAt j) ∅)[id]? with
  | none => rfl
  | some v =>
    obtain ⟨i, hi, hVi⟩ := h _ _ _ hv
    have hpos : c.position (c.nameAt j) = some j := by
      rw [nameAt, Array.getElem?_eq_getElem hj, Option.map_some, Option.getD_some]
      exact hnamed j _ (Array.getElem?_eq_getElem hj)
    rw [hpos, Option.some_inj] at hi
    subst hi
    rw [hVi]
    rfl

end Collection

end Cache

/-! ## Evaluating keeps the values it reads -/

/-- A run that settles and answers a value answers one satisfying its postcondition. -/
theorem Settles.of_ok {ε σ α : Type} {r : EStateM.Result ε σ α} {fault : Option ε} {Q : α → Prop} {P : σ → Prop}
    (h : Settles r fault Q P) {a : α} {s : σ} (hr : r = .ok a s) : Q a ∧ P s := by
  subst hr
  cases fault with
  | none => exact h
  | some e => exact h.elim

namespace Collection

variable {c₀ : Collection} {d : Disk} {R : Nat → List (Nat × Value)} {V : Nat → Nat → Option Value}

/-- The empty condition keeps the key column's values. -/
theorem allRows_agrees {s : Disk × Collection} (hs : Serving c₀ d R V s) :
    Settles (allRows s) none (fun m => CacheAgrees c₀ V m.cache) (Serving c₀ d R V) := by
  obtain ⟨d', c⟩ := s
  have hd : d' = d := hs.disk
  subst hd
  refine allRows_rule hs (fun _ => cacheAgrees_empty) fun k col hk hcol => ?_
  -- the key column is searchable; listing it answers its rows, each its value at its id
  have hserve := hs.stores.serves k col hcol
  have hord := hs.stores.keyed k col hk hcol
  obtain ⟨st, hrun, hst⟩ := hserve.all hord
  refine ⟨_, st, hrun, cacheAgrees_ofRows ?_ fun p hp => hserve.value_of_mem hord hp, hs.setStore hcol hst⟩
  obtain ⟨name, hkey, hpos⟩ := Option.bind_eq_some_iff.mp hk
  rw [hkey, Option.getD_some, ← position_of_schema hs.schema]
  exact hpos

/-- A clause fails with its fault, or keeps the values of the rows it read. -/
theorem clause_agrees {s : Disk × Collection} (hs : Serving c₀ d R V s) (cl : Clause) :
    Settles (clause cl s) (c₀.clauseFault cl) (fun m => CacheAgrees c₀ V m.cache) (Serving c₀ d R V) := by
  obtain ⟨d', c⟩ := s
  have hd : d' = d := hs.disk
  subst hd
  rw [← clauseFault_of_schema hs.schema]
  refine clause_rule hs (fun _ => cacheAgrees_empty) fun i col o hcol _ hord hlit => ?_
  -- the rows searched are rows of the column, each its value at its id
  have hserve := hs.stores.serves i col hcol
  obtain ⟨st, hrun, hst⟩ := hserve.range hord cl.comparison (ValueKind.kind_readLiteral hlit)
  refine ⟨_, st, hrun, cacheAgrees_ofRows ?_ fun p hp => hserve.value_of_mem hord (List.mem_of_mem_filter hp),
    hs.setStore hcol hst⟩
  rw [← position_of_schema hs.schema]
  exact hs.stores.named i col hcol

mutual
/-- Evaluating a condition fails with its first fault, or keeps only values its columns hold. -/
theorem evaluate_agrees (cond : Condition) {s : Disk × Collection} (hs : Serving c₀ d R V s) :
    Settles (evaluate cond s) (c₀.firstClauseFault cond) (fun m => CacheAgrees c₀ V m.cache) (Serving c₀ d R V) := by
  match cond with
  | .all =>
    rw [evaluate, firstClauseFault_all]
    exact allRows_agrees hs
  | .clause cl =>
    rw [evaluate, firstClauseFault_clause]
    exact clause_agrees hs cl
  | .compound operands connectors =>
    rw [evaluate, firstClauseFault_compound]
    exact (evaluateAll_agrees operands hs).bind_pure fun ms hms => cacheAgrees_combine ms connectors hms

theorem evaluateAll_agrees (conds : List Condition) {s : Disk × Collection} (hs : Serving c₀ d R V s) :
    Settles (evaluateAll conds s) (c₀.firstClauseFaultAll conds) (fun ms => ∀ m ∈ ms, CacheAgrees c₀ V m.cache)
      (Serving c₀ d R V) := by
  match conds with
  | [] =>
    rw [evaluateAll, firstClauseFaultAll_nil]
    exact Settles.pure (fun _ hm => nomatch hm) hs
  | cond :: rest =>
    rw [evaluateAll, firstClauseFaultAll_cons]
    refine (evaluate_agrees cond hs).bind fun m _ hm hs' => ?_
    refine (evaluateAll_agrees rest hs').bind_pure fun ms hms m' hm' => ?_
    rcases List.mem_cons.mp hm' with rfl | hrest
    · exact hm
    · exact hms m' hrest
end

/-- A query that answers a result keeps only values its columns hold, and leaves a serving state. -/
theorem query_agrees {s : Disk × Collection} (hs : Serving c₀ d R V s) {condition : String} {m : Matches}
    {s' : Disk × Collection} (h : query condition s = .ok m s') : CacheAgrees c₀ V m.cache ∧ Serving c₀ d R V s' := by
  obtain ⟨d', c⟩ := s
  have hthrow : ∀ {α : Type} (e : CollectionError) (x : Disk × Collection),
      (throw e : CollectionOp α) x = .error e x := fun _ _ => rfl
  simp only [Collection.query, ensureOpen, bind, EStateM.bind, get, getThe, MonadStateOf.get, EStateM.get] at h
  cases hdisp : c.disposed with
  | true => simp [hdisp, hthrow] at h
  | false =>
    cases hp : parse condition with
    | error e => simp [hdisp, hp, pure, EStateM.pure, hthrow] at h
    | ok cond =>
      simp only [hdisp, hp, Bool.false_eq_true, if_false, pure, EStateM.pure] at h
      simp only [EStateM.bind, EStateM.get, hdisp, Bool.false_eq_true, if_false, EStateM.pure] at h
      exact (evaluate_agrees cond hs).of_ok h

end Collection

/-! ## Selecting a query's result -/

namespace Collection

open CollectionEvent

/-- Selecting from any open state of a schema, whose columns serve the values `V'`, answers for
each id and requested column the value the result keeps for it, and otherwise the value `V'`. -/
theorem select_of_stores {c c' : Collection} {d' : Disk} {R' : Nat → List (Nat × Value)}
    {V' : Nat → Nat → Option Value} (hst : c'.Stores d' R' V') (hsch : c'.schema = c.schema)
    (hopen : c'.disposed = false) (m : Matches) (columns : List String)
    (hknown : ∀ n ∈ columns, (c.position n).isSome) :
    ∃ s₂, select m columns (d', c') =
      .ok (m.ids.map fun id => c.selected columns fun j => ((m.cache.getD (c.nameAt j) ∅)[id]?).or (V' j id)) s₂ := by
  obtain ⟨s₂, hrun, -⟩ := Serving.select (⟨rfl, hst, rfl, rfl⟩ : Serving c' d' R' V' (d', c')) hopen m columns
    fun n hn => by rw [position_of_schema hsch]; exact hknown n hn
  simp only [selected_of_schema hsch, nameAt_of_schema hsch] at hrun
  exact ⟨s₂, hrun⟩

/-- Selecting from the result of a query over a collection whose columns serve the values `V`.
Right after the query, each row holds, for each requested column, the value the column holds at that
id. Every value the result keeps is the value its column held when the query ran, and a later
select, from any open state of the same schema whose columns serve the values `V'`, reads a
column's kept value where there is one and its value in `V'` otherwise: writes made after the
query are not seen in the columns its clauses read. -/
theorem select_of_query {c : Collection} {d : Disk} {R : Nat → List (Nat × Value)} {V : Nat → Nat → Option Value}
    (hst : c.Stores d R V) (hopen : c.disposed = false) {condition : String} {m : Matches}
    {s₁ : Disk × Collection} (hq : query condition (d, c) = .ok m s₁) (columns : List String)
    (hknown : ∀ n ∈ columns, (c.position n).isSome) :
    (∃ s₂, select m columns s₁ = .ok (m.ids.map fun id => c.selected columns fun j => V j id) s₂) ∧
    (∀ j id v, j < c.columns.size → (m.cache.getD (c.nameAt j) ∅)[id]? = some v → V j id = some v) ∧
    ∀ (d' : Disk) (c' : Collection) (R' : Nat → List (Nat × Value)) (V' : Nat → Nat → Option Value),
      c'.Stores d' R' V' → c'.schema = c.schema → c'.disposed = false →
      ∃ s₂, select m columns (d', c') =
        .ok (m.ids.map fun id => c.selected columns fun j => ((m.cache.getD (c.nameAt j) ∅)[id]?).or (V' j id)) s₂ := by
  obtain ⟨hagree, hs₁⟩ := query_agrees (⟨rfl, hst, rfl, rfl⟩ : Serving c d R V (d, c)) hq
  -- the cache holds the query's values, so preferring it reads the values `V`
  have hkept := fun j (hj : j < c.columns.size) id => hagree.or_eq hst.named hj id
  refine ⟨?_, fun j id v hj hv => ?_, fun d' c' R' V' hst' hsch' hopen' => select_of_stores hst' hsch' hopen' m columns hknown⟩
  · obtain ⟨d₁, c₁⟩ := s₁
    have hd : d₁ = d := hs₁.disk
    subst hd
    obtain ⟨s₂, hrun⟩ := select_of_stores hs₁.stores hs₁.schema (hs₁.disposed.trans hopen) m columns hknown
    refine ⟨s₂, hrun.trans ?_⟩
    congr 1
    exact List.map_congr_left fun id _ => selected_congr fun j hj => hkept j (lt_of_mem_requested hj) id
  · have h := hkept j hj id
    rw [hv] at h
    exact h.symm

/-- The new collection `db/items` declares an integer key `k` and a text column `t`, and adds the
rows `k = 1, t = one` and `k = 2, t = two`; its columns then serve the rows and values of some
models. Selected right after the query `k > 1`, the one row it matches holds each column's value:
`k = 2, t = two`. -/
theorem select_of_query_after_writes :
    ∃ d c, runEvents [.declare ⟨"k", .int .i64, 0, true⟩, .declare ⟨"t", .text, 0, false⟩,
          .insert (fun n => [("k", .int .i64 1), ("t", .text "one")].lookup n),
          .insert (fun n => [("k", .int .i64 2), ("t", .text "two")].lookup n)]
        ({ dirs := ["data", "data/db", "data/db/items"] },
          ⟨"db", "items", Settings.collectionDirectory ⟨"data", 100, 38, true⟩ "db" "items",
            ⟨"data", 100, 38, true⟩, none, #[], false⟩) = .ok () (d, c) ∧
      ∃ (R : Nat → List (Nat × Value)) (V : Nat → Nat → Option Value), c.Stores d R V ∧
        ∃ m s₁, query "k > 1" (d, c) = .ok m s₁ ∧
          (∃ s₂, select m ["k", "t"] s₁ = .ok (m.ids.map fun id => c.selected ["k", "t"] fun j => V j id) s₂) ∧
          (do select (← query "k > 1") ["k", "t"]).run' (d, c) = some [[("k", .int .i64 2), ("t", .text "two")]] := by
  -- the run is evaluated once to fix the collection; every other fact is read off it
  refine ⟨?d, ?c, ?run, (runEvents_stores _ rfl rfl ?run ?allowed).elim fun M hst =>
    ⟨_, _, hst, _, _, eq_ok_of_run' (Option.some_get ?found).symm,
      (select_of_query hst ?opened (eq_ok_of_run' (Option.some_get ?found).symm) ["k", "t"] ?known).1, ?rows⟩⟩
  case run =>
    refine eq_ok_of_run' (x := runEvents _) ?_
    decide +kernel
  case allowed => decide +kernel
  case found => decide +kernel
  case opened => decide +kernel
  case known => decide +kernel
  case rows => decide +kernel

/-- A result does not see a write made after the query to a column its clause read: the row of id 1
keeps the value 5 the clause read, while the column now holds 6. -/
theorem select_after_update_keeps_read_value :
    let c : Collection := ⟨"db", "items", "data/db/items", ⟨"data", 100, 64, true⟩, some "a",
      #[⟨⟨"a", .int .i64, 0, false⟩, .ordered ⟨⟨"t", ⟨0, none⟩, ⟨20, 64⟩, Cell.create 8 4 64,
        Allocator.create ⟨20, 64⟩, true, false⟩, .int .i64, Cell.create 12 8 0, ∅⟩⟩], false⟩
    (do
      discard (insert fun n => if n == "a" then some (.int .i64 5) else none)
      let m ← query "a == 5"
      discard (update "a" [1] (.int .i64 6))
      let rows ← select m ["a"]
      let now ← onNamedColumn 0 (ColumnStore.get 1)
      pure (rows, now) : CollectionOp (List Row × Option Value)).run' ({ stores := #[ByteArray.empty] }, c) =
      some ([[("a", .int .i64 5)]], some (.int .i64 6)) := by
  decide +kernel

end Collection

/-! ## Conditions over the columns a run of writes fills -/

namespace Collection

open CollectionEvent

/-- Evaluating any condition over a collection whose orderable columns hold the rows `R`: when a
clause names a column that cannot be searched or gives a literal that does not read, evaluation
fails with the fault of the first such clause, left to right; otherwise it answers exactly the ids
`selects` gives. Either way the disk is unchanged and the collection still holds `R`. -/
theorem evaluate_selects {c : Collection} {d : Disk} {R : Nat → List (Nat × Value)} (hc : c.Indexes d R)
    (cond : Condition) :
    (∀ e, c.firstClauseFault cond = some e →
      ∃ c', evaluate cond (d, c) = .error e (d, c') ∧ c'.Indexes d R) ∧
    (c.firstClauseFault cond = none →
      ∃ m c', evaluate cond (d, c) = .ok m (d, c') ∧ m.ids = c.selects R cond ∧ c'.Indexes d R) := by
  have h := evaluate_settles cond (show Reading c d R (d, c) from ⟨rfl, hc, rfl⟩)
  constructor
  · intro e he
    rw [he] at h
    obtain ⟨⟨d', c'⟩, hr, hd, hidx, -⟩ := h.eq_error
    dsimp only at hd
    subst hd
    exact ⟨c', hr, hidx⟩
  · intro he
    rw [he] at h
    obtain ⟨m, ⟨d', c'⟩, hr, ⟨hids, -⟩, hd, hidx, -⟩ := h.eq_ok
    dsimp only at hd
    subst hd
    exact ⟨m, c', hr, hids, hidx⟩

/-- The collection `db/items` of `select_of_query_after_writes`, with the rows `k = 1` and `k = 2`,
indexes its rows: `k > 1 && k < 5` answers the ids its two clauses join, the one id 2, and
`k >= 1 || t == two` fails on its clause on the text column `t`, which cannot be searched. -/
theorem evaluate_selects_after_writes :
    ∃ d c, runEvents [.declare ⟨"k", .int .i64, 0, true⟩, .declare ⟨"t", .text, 0, false⟩,
          .insert (fun n => [("k", .int .i64 1), ("t", .text "one")].lookup n),
          .insert (fun n => [("k", .int .i64 2), ("t", .text "two")].lookup n)]
        ({ dirs := ["data", "data/db", "data/db/items"] },
          ⟨"db", "items", Settings.collectionDirectory ⟨"data", 100, 38, true⟩ "db" "items",
            ⟨"data", 100, 38, true⟩, none, #[], false⟩) = .ok () (d, c) ∧
      ∃ R : Nat → List (Nat × Value), c.Indexes d R ∧
        (∃ m c', evaluate (.compound [.clause ⟨"k", .gt, "1"⟩, .clause ⟨"k", .lt, "5"⟩] [.and]) (d, c) =
            .ok m (d, c') ∧
          m.ids = c.selects R (.compound [.clause ⟨"k", .gt, "1"⟩, .clause ⟨"k", .lt, "5"⟩] [.and]) ∧
          c'.Indexes d R) ∧
        (∃ c', evaluate (.compound [.clause ⟨"k", .ge, "1"⟩, .clause ⟨"t", .eq, "two"⟩] [.or]) (d, c) =
            .error (.notOrderable "t") (d, c') ∧ c'.Indexes d R) ∧
        ((evaluate (.compound [.clause ⟨"k", .gt, "1"⟩, .clause ⟨"k", .lt, "5"⟩] [.and])).run' (d, c)).map
          (·.ids) = some [2] := by
  refine ⟨?d, ?c, ?run, (runEvents_stores _ rfl rfl ?run ?allowed).elim fun M hst =>
    ⟨_, hst.indexes, (evaluate_selects hst.indexes _).2 ?joined, (evaluate_selects hst.indexes _).1 _ ?fault,
      ?ids⟩⟩
  case run =>
    refine eq_ok_of_run' (x := runEvents _) ?_
    decide +kernel
  case allowed => decide +kernel
  case joined => decide +kernel
  case fault => decide +kernel
  case ids => decide +kernel

end Collection

end ColumnDb
