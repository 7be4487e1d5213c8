import Mathlib
import ColumnDb.Proofs.QueryJoin
import ColumnDb.Proofs.TreeSearch

/-!
# Evaluating a condition

A condition is evaluated against the rows its columns hold. Reading a column's rows in value
order is the tree search of `ColumnDb.Proofs.TreeSearch`, and joining the operands' results is
`joinIds` of `ColumnDb.Proofs.QueryJoin`. Between the two sits the collection: which column a
clause names, whether that column can be searched, and how the clause's literal reads.

`Collection.Indexes c d R` says that each orderable column `i` of `c` is a tree over `d` holding
the rows `R i`, and that the key column is orderable. Over such a collection `evaluate_settles`
proves that evaluating any condition fails with the fault of its first faulty clause, left to
right (`firstClauseFault`), and otherwise answers the ids `selects` gives: the key column's rows for the
empty condition, the rows of the clause's column whose value satisfies the comparison for a
clause, and `joinIds` of the operands' ids for a compound condition. Either way the disk is
unchanged and the collection still holds `R`. `ColumnDb.Proofs.SelectRows` states this for the
collection itself (`Collection.evaluate_selects`), beside a collection that a run of writes fills.

The proof runs over a small calculus of outcomes (`Settles`): a run either fails with the
expected fault or answers a value satisfying a postcondition, and ends in a state satisfying an
invariant. Binding two runs chains their faults with `Option.or`, which is how the first fault of
`clausesAll` splits over an append.
-/

set_option autoImplicit false

namespace ColumnDb

open ColumnDb.Disk ColumnDb.Column ColumnDb.Query ColumnDb.Tree

/-! ## Outcomes of a run -/

/-- A run that fails with `fault` when there is one and otherwise answers a value satisfying `Q`,
ending either way in a state satisfying `P`. -/
def Settles {ε σ α : Type} (r : EStateM.Result ε σ α) (fault : Option ε) (Q : α → Prop)
    (P : σ → Prop) : Prop :=
  match fault, r with
  | some e, .error e' s => e' = e ∧ P s
  | none, .ok a s => Q a ∧ P s
  | _, _ => False

namespace Settles

variable {ε σ α β : Type} {P : σ → Prop} {Q : α → Prop} {s : σ}

theorem pure {a : α} (hq : Q a) (hs : P s) : Settles ((Pure.pure a : EStateM ε σ α) s) none Q P :=
  ⟨hq, hs⟩

theorem error {e : ε} (hs : P s) : Settles (.error e s : EStateM.Result ε σ α) (some e) Q P :=
  ⟨rfl, hs⟩

theorem eq_error {r : EStateM.Result ε σ α} {e : ε} (h : Settles r (some e) Q P) :
    ∃ s, r = .error e s ∧ P s := by
  cases r with
  | ok a s => exact h.elim
  | error e' s =>
    obtain ⟨rfl, hs⟩ := h
    exact ⟨s, rfl, hs⟩

theorem eq_ok {r : EStateM.Result ε σ α} (h : Settles r none Q P) : ∃ a s, r = .ok a s ∧ Q a ∧ P s := by
  cases r with
  | ok a s => exact ⟨a, s, rfl, h⟩
  | error e s => exact h.elim

/-- A bound run fails with the first run's fault, or else with the second's. -/
theorem bind {x : EStateM ε σ α} {f : α → EStateM ε σ β} {f₁ f₂ : Option ε} {Q' : β → Prop}
    (hx : Settles (x s) f₁ Q P) (hf : ∀ a s', Q a → P s' → Settles (f a s') f₂ Q' P) :
    Settles ((x >>= f) s) (f₁.or f₂) Q' P := by
  show Settles (EStateM.bind x f s) _ _ _
  unfold EStateM.bind
  cases f₁ with
  | none =>
    cases hxs : x s with
    | ok a s' =>
      rw [hxs] at hx
      exact hf a s' hx.1 hx.2
    | error e s' =>
      rw [hxs] at hx
      exact hx.elim
  | some e =>
    cases hxs : x s with
    | ok a s' =>
      rw [hxs] at hx
      exact hx.elim
    | error e' s' =>
      rw [hxs] at hx
      exact hx

/-- A run followed by a pure step keeps its fault. -/
theorem bind_pure {x : EStateM ε σ α} {g : α → β} {fault : Option ε} {Q' : β → Prop}
    (hx : Settles (x s) fault Q P) (hg : ∀ a, Q a → Q' (g a)) :
    Settles ((x >>= fun a => Pure.pure (g a)) s) fault Q' P := by
  rw [show fault = fault.or none from Option.or_none.symm]
  exact hx.bind fun a _ hq hs => Settles.pure (hg a hq) hs

end Settles

/-- A literal reads as a value of the kind it is read for. -/
theorem ValueKind.kind_readLiteral {k : ValueKind} {literal : String} {v : Value}
    (h : k.readLiteral? literal = some v) : v.kind = k := by
  unfold ValueKind.readLiteral? at h
  cases k with
  | text =>
    cases h
    rfl
  | bool =>
    dsimp only at h
    split_ifs at h <;> cases h <;> rfl
  | int ik =>
    dsimp only at h
    split at h
    · split_ifs at h
      cases h
      rfl
    · cases h
  | float fk =>
    obtain ⟨bits, -, rfl⟩ := Option.map_eq_some_iff.mp h
    rfl

/-! ## The condition's clauses -/

namespace Query

mutual
/-- The clauses of a condition, left to right. -/
def Condition.clauses : Condition → List Clause
  | .all => []
  | .clause cl => [cl]
  | .compound operands _ => Condition.clausesAll operands

/-- The clauses of conditions, left to right. -/
def Condition.clausesAll : List Condition → List Clause
  | [] => []
  | cond :: rest => cond.clauses ++ Condition.clausesAll rest
end

end Query

/-! ## What a condition selects -/

namespace Collection

/-- What reads never change: the key and the declarations. -/
def schema (c : Collection) : Option String × Array ColumnDef :=
  (c.key, c.columns.map (·.declared))

/-- The position and declaration of the column a clause names, if it is declared. -/
def clauseColumn (c : Collection) (name : String) : Option (Nat × ColumnDef) :=
  (c.position name).bind fun i => c.columns[i]?.map fun col => (i, col.declared)

/-- The fault a clause raises: its column cannot be searched, or its literal does not read as a
value of the column's kind. A clause on an undeclared column raises none. -/
def clauseFault (c : Collection) (cl : Clause) : Option CollectionError :=
  match c.clauseColumn cl.column with
  | none => none
  | some (_, col) =>
    if !col.isOrderable then some (.notOrderable col.name)
    else match col.kind.readLiteral? cl.literal with
      | some _ => none
      | none => some (.invalidLiteral col.kind cl.literal)

/-- The fault of the first clause that has one, left to right. -/
def firstClauseFault (c : Collection) (cond : Condition) : Option CollectionError :=
  cond.clauses.findSome? c.clauseFault

/-- The fault of the first clause that has one, across conditions left to right. -/
def firstClauseFaultAll (c : Collection) (conds : List Condition) : Option CollectionError :=
  (Condition.clausesAll conds).findSome? c.clauseFault

@[simp] theorem firstClauseFault_all (c : Collection) : c.firstClauseFault .all = none := rfl

@[simp] theorem firstClauseFault_clause (c : Collection) (cl : Clause) :
    c.firstClauseFault (.clause cl) = c.clauseFault cl :=
  List.findSome?_singleton

@[simp] theorem firstClauseFault_compound (c : Collection) (operands : List Condition)
    (connectors : List Connector) : c.firstClauseFault (.compound operands connectors) = c.firstClauseFaultAll operands :=
  rfl

@[simp] theorem firstClauseFaultAll_nil (c : Collection) : c.firstClauseFaultAll [] = none := rfl

@[simp] theorem firstClauseFaultAll_cons (c : Collection) (cond : Condition) (rest : List Condition) :
    c.firstClauseFaultAll (cond :: rest) = (c.firstClauseFault cond).or (c.firstClauseFaultAll rest) :=
  List.findSome?_append

/-- The ids a clause selects when column `i` holds the rows `R i`: the rows of its column whose
value satisfies the comparison against the literal, in the column's order. -/
def clauseIds (c : Collection) (R : Nat → List (Nat × Value)) (cl : Clause) : List Nat :=
  match c.clauseColumn cl.column with
  | none => []
  | some (i, col) =>
    match col.kind.readLiteral? cl.literal with
    | some o => ((R i).filter fun row => cl.comparison.accepts (row.2.compare o)).map Prod.fst
    | none => []

/-- The ids of every row, in the key column's order; none without a key. -/
def keyIds (c : Collection) (R : Nat → List (Nat × Value)) : List Nat :=
  match c.keyIndex with
  | some k => (R k).map Prod.fst
  | none => []

mutual
/-- The ids a condition selects when column `i` holds the rows `R i`. -/
def selects (c : Collection) (R : Nat → List (Nat × Value)) : Condition → List Nat
  | .all => c.keyIds R
  | .clause cl => c.clauseIds R cl
  | .compound operands connectors => joinIds (selectsAll c R operands) connectors

/-- The ids each condition selects. -/
def selectsAll (c : Collection) (R : Nat → List (Nat × Value)) : List Condition → List (List Nat)
  | [] => []
  | cond :: rest => selects c R cond :: selectsAll c R rest
end

/-- Each orderable column `i` is a tree of the column's kind holding the rows `R i`, and the key
column is orderable. -/
structure Indexes (c : Collection) (d : Disk) (R : Nat → List (Nat × Value)) : Prop where
  ordered : ∀ i col, c.columns[i]? = some col → col.declared.isOrderable = true →
    ∃ t : TreeFile, col.store = .ordered t ∧ t.kind = col.declared.kind ∧ t.Lists d (R i)
  keyed : ∀ k col, c.keyIndex = some k → c.columns[k]? = some col → col.declared.isOrderable = true


/-! ## Reads keep the schema -/

section Schema

variable {c c₀ : Collection}

theorem key_of_schema (h : c.schema = c₀.schema) : c.key = c₀.key :=
  congrArg Prod.fst h

theorem declared_of_schema (h : c.schema = c₀.schema) (i : Nat) :
    c.columns[i]?.map (·.declared) = c₀.columns[i]?.map (·.declared) := by
  rw [← Array.getElem?_map, ← Array.getElem?_map]
  exact congrArg (·[i]?) (congrArg Prod.snd h)

theorem position_of_schema (h : c.schema = c₀.schema) (name : String) :
    c.position name = c₀.position name := by
  have hnames : (fun col : Column => col.declared.name == name) =
      (fun decl : ColumnDef => decl.name == name) ∘ (·.declared) := rfl
  rw [position, position, hnames, ← Array.findIdx?_map, ← Array.findIdx?_map]
  exact congrArg _ (congrArg Prod.snd h)

theorem keyIndex_of_schema (h : c.schema = c₀.schema) : c.keyIndex = c₀.keyIndex := by
  rw [keyIndex, keyIndex, key_of_schema h]
  exact congrArg _ (funext (position_of_schema h))

theorem clauseColumn_of_schema (h : c.schema = c₀.schema) (name : String) :
    c.clauseColumn name = c₀.clauseColumn name := by
  rw [clauseColumn, clauseColumn, position_of_schema h]
  congr 1
  funext i
  have hi := congrArg (Option.map fun decl => (i, decl)) (declared_of_schema h i)
  simpa only [Option.map_map, Function.comp_def] using hi

theorem clauseFault_of_schema (h : c.schema = c₀.schema) (cl : Clause) :
    c.clauseFault cl = c₀.clauseFault cl := by
  rw [clauseFault, clauseFault, clauseColumn_of_schema h]

theorem clauseIds_of_schema (h : c.schema = c₀.schema) (R : Nat → List (Nat × Value)) (cl : Clause) :
    c.clauseIds R cl = c₀.clauseIds R cl := by
  rw [clauseIds, clauseIds, clauseColumn_of_schema h]

/-- Giving a column a new store keeps the schema. -/
theorem schema_setStore {i : Nat} {col : Column} (hcol : c.columns[i]? = some col) (st : ColumnStore) :
    { c with columns := c.columns.set! i { col with store := st } }.schema = c.schema := by
  have hcols : (c.columns.set! i { col with store := st }).map (·.declared) = c.columns.map (·.declared) := by
    rw [Array.set!_eq_setIfInBounds, Array.map_setIfInBounds]
    apply Array.ext_getElem?
    intro j
    rw [Array.getElem?_setIfInBounds, Array.getElem?_map]
    by_cases hj : i = j
    · subst hj
      rw [if_pos rfl, if_pos (by simpa using (Array.getElem?_eq_some_iff.mp hcol).1), hcol]
      rfl
    · rw [if_neg hj]
  simp only [schema, hcols]

end Schema

/-! ## Running a store operation on a column -/

/-- A store operation that succeeds on a column leaves that column its new store and changes
nothing else. -/
theorem onNamedColumn_ok {α : Type} {m : StoreOp α} {d d' : Disk} {c : Collection} {i : Nat}
    {col : Column} {a : α} {st : ColumnStore} (hcol : c.columns[i]? = some col)
    (hm : m (d, col.store) = .ok a (d', st)) :
    onNamedColumn i m (d, c) = .ok a (d', { c with columns := c.columns.set! i { col with store := st } }) := by
  simp only [onNamedColumn, onColumn, bind, EStateM.bind, get, getThe, MonadStateOf.get, EStateM.get,
    tryCatch, tryCatchThe, MonadExceptOf.tryCatch, EStateM.tryCatch, EStateM.run, hcol, hm]


theorem position_lt {c : Collection} {name : String} {i : Nat} (h : c.position name = some i) :
    i < c.columns.size := by
  obtain ⟨hi, -⟩ := Array.findIdx?_eq_some_iff_getElem.mp h
  exact hi

theorem column_of_keyIndex {c : Collection} {k : Nat} (h : c.keyIndex = some k) :
    ∃ col, c.columns[k]? = some col := by
  obtain ⟨name, -, hpos⟩ := Option.bind_eq_some_iff.mp h
  have hk := position_lt hpos
  exact ⟨c.columns[k], Array.getElem?_eq_getElem hk⟩

end Collection

/-! ## Searching a tree column -/

namespace Column.ColumnStore

variable {d : Disk} {t : TreeFile} {R : List (Nat × Value)}

/-- Listing a tree column that holds `R` answers `R` and leaves a tree that still holds it. -/
theorem all_ordered (hl : t.Lists d R) :
    ∃ t' : TreeFile, ColumnStore.all (d, .ordered t) = .ok R (d, .ordered t') ∧ t'.Lists d R ∧
      t'.kind = t.kind := by
  obtain ⟨t', hrun, hl', hk⟩ := hl.all
  refine ⟨t', ?_, hl', hk⟩
  simp only [ColumnStore.all, dispatch, onTree, EStateM.run, hrun]

/-- Searching a tree column that holds `R` with an operand of its kind answers the rows of `R`
whose value satisfies the comparison, and leaves a tree that still holds `R`. -/
theorem range_ordered (hl : t.Lists d R) (cmp : Comparison) {o : Value} (ho : o.kind = t.kind) :
    ∃ t' : TreeFile, ColumnStore.range cmp o (d, .ordered t) =
        .ok (R.filter fun row => cmp.accepts (row.2.compare o)) (d, .ordered t') ∧
      t'.Lists d R ∧ t'.kind = t.kind := by
  obtain ⟨t', hrun, hl', hk⟩ := hl.range cmp ho
  refine ⟨t', ?_, hl', hk⟩
  simp only [ColumnStore.range, ho, beq_self_eq_true, if_true, onTree, EStateM.run, hrun]

end Column.ColumnStore

namespace Collection

variable {d : Disk} {R : Nat → List (Nat × Value)}

/-- Giving an orderable column a tree of its kind that holds the column's rows keeps every
column's rows indexed. -/
theorem Indexes.setStore {c : Collection} (h : c.Indexes d R) {i : Nat} {col : Column}
    (hcol : c.columns[i]? = some col) {t : TreeFile} (hkind : t.kind = col.declared.kind)
    (hl : t.Lists d (R i)) :
    { c with columns := c.columns.set! i { col with store := .ordered t } }.Indexes d R := by
  have hsch := schema_setStore hcol (.ordered t)
  constructor
  · intro j col' hj hord
    dsimp only at hj
    rw [Array.set!_eq_setIfInBounds, Array.getElem?_setIfInBounds] at hj
    by_cases hij : i = j
    · subst hij
      rw [if_pos rfl, if_pos (Array.getElem?_eq_some_iff.mp hcol).1, Option.some_inj] at hj
      subst hj
      exact ⟨t, rfl, hkind, hl⟩
    · rw [if_neg hij] at hj
      exact h.ordered j col' hj hord
  · intro k col' hk hcol'
    have hdecl := declared_of_schema hsch k
    rw [hcol', Option.map_some] at hdecl
    obtain ⟨col'', hc'', hd⟩ := Option.map_eq_some_iff.mp hdecl.symm
    rw [← hd]
    exact h.keyed k col'' ((keyIndex_of_schema hsch).symm.trans hk) hc''

/-- A state that reading a condition passes through: the disk is `d`, and the collection has
the schema of `c₀` and holds the rows `R`. -/
structure Reading (c₀ : Collection) (d : Disk) (R : Nat → List (Nat × Value)) (s : Disk × Collection) :
    Prop where
  disk : s.1 = d
  indexes : s.2.Indexes d R
  schema : s.2.schema = c₀.schema

variable {c₀ : Collection}

/-- Giving an orderable column a new tree that still holds its rows keeps a reading state. -/
theorem Reading.setStore {c : Collection} (h : Reading c₀ d R (d, c)) {i : Nat} {col : Column}
    (hcol : c.columns[i]? = some col) {t : TreeFile} (hkind : t.kind = col.declared.kind)
    (hl : t.Lists d (R i)) :
    Reading c₀ d R (d, { c with columns := c.columns.set! i { col with store := .ordered t } }) :=
  ⟨rfl, h.indexes.setStore hcol hkind hl, (schema_setStore hcol _).trans h.schema⟩

/-- What listing the key does, once: without a key it selects nothing, and otherwise it lists the
key column's store and keeps the rows found. A property of the result and the state follows from
these two cases. -/
theorem allRows_rule {c : Collection} {P : Disk × Collection → Prop} {Q : Matches → Prop} (hs : P (d, c))
    (hnone : c.keyIndex = none → Q Matches.empty)
    (hkey : ∀ k col, c.keyIndex = some k → c.columns[k]? = some col →
      ∃ rows st, ColumnStore.all (d, col.store) = .ok rows (d, st) ∧ Q (Matches.ofRows (c.key.getD "") rows) ∧
        P (d, { c with columns := c.columns.set! k { col with store := st } })) :
    Settles (allRows (d, c)) none Q P := by
  simp only [allRows, bind, EStateM.bind, get, getThe, MonadStateOf.get, EStateM.get]
  cases hk : c.keyIndex with
  | none => exact Settles.pure (hnone hk) hs
  | some k =>
    obtain ⟨col, hcol⟩ := column_of_keyIndex hk
    obtain ⟨rows, st, hrun, hq, hP⟩ := hkey k col hk hcol
    dsimp only
    simp only [EStateM.bind, onNamedColumn_ok hcol hrun]
    exact Settles.pure hq hP

/-- What a clause does, once: on an undeclared column it selects nothing; on a column that cannot
be searched, or with a literal that does not read, it fails with its fault; otherwise it searches
the column's store and keeps the rows found. -/
theorem clause_rule {c : Collection} {cl : Clause} {P : Disk × Collection → Prop} {Q : Matches → Prop}
    (hs : P (d, c)) (hempty : c.clauseColumn cl.column = none → Q Matches.empty)
    (hsearch : ∀ i col o, c.columns[i]? = some col → c.clauseColumn cl.column = some (i, col.declared) →
      col.declared.isOrderable = true → col.declared.kind.readLiteral? cl.literal = some o →
      ∃ rows st, ColumnStore.range cl.comparison o (d, col.store) = .ok rows (d, st) ∧
        Q (Matches.ofRows col.declared.name rows) ∧ P (d, { c with columns := c.columns.set! i { col with store := st } })) :
    Settles (clause cl (d, c)) (c.clauseFault cl) Q P := by
  -- a clause on an undeclared column selects nothing and raises no fault
  have hundeclared (hcc : c.clauseColumn cl.column = none) :
      Settles ((Pure.pure Matches.empty : CollectionOp Matches) (d, c)) (c.clauseFault cl) Q P := by
    rw [clauseFault, hcc]
    exact Settles.pure (hempty hcc) hs
  simp only [clause, bind, EStateM.bind, get, getThe, MonadStateOf.get, EStateM.get]
  cases hp : c.position cl.column with
  | none => exact hundeclared (by rw [clauseColumn, hp]; rfl)
  | some i =>
    dsimp only [Option.getD]
    cases hcol : c.columns[i]? with
    | none => exact hundeclared (by rw [clauseColumn, hp]; simp [hcol])
    | some col =>
      have hcc : c.clauseColumn cl.column = some (i, col.declared) := by rw [clauseColumn, hp]; simp [hcol]
      rw [clauseFault, hcc]
      dsimp only
      by_cases hord : col.declared.isOrderable = true
      · have hno : ¬(!col.declared.isOrderable) = true := by simp [hord]
        rw [if_neg hno, if_neg hno]
        cases hlit : col.declared.kind.readLiteral? cl.literal with
        | none => exact Settles.error hs
        | some o =>
          obtain ⟨rows, st, hrun, hq, hP⟩ := hsearch i col o hcol hcc hord hlit
          dsimp only
          simp only [EStateM.bind, onNamedColumn_ok hcol hrun]
          exact Settles.pure hq hP
      · have hyes : (!col.declared.isOrderable) = true := by simpa using hord
        rw [if_pos hyes, if_pos hyes]
        exact Settles.error hs

/-- The empty condition answers the key column's rows, in its order. -/
theorem allRows_settles {s : Disk × Collection} (hs : Reading c₀ d R s) :
    Settles (allRows s) none (fun m => m.ids = c₀.keyIds R ∧ m.ids.Nodup) (Reading c₀ d R) := by
  obtain ⟨d', c⟩ := s
  obtain rfl : d' = d := hs.disk
  have hkey := keyIndex_of_schema hs.schema
  refine allRows_rule hs (fun hk => ⟨by rw [keyIds, ← hkey, hk]; rfl, List.nodup_nil⟩)
    fun k col hk hcol => ?_
  -- the key column is a tree holding `R k`, and listing it changes nothing else
  obtain ⟨t, hst, hkind, hl⟩ := hs.indexes.ordered k col hcol (hs.indexes.keyed k col hk hcol)
  obtain ⟨t', hrun, hl', hk'⟩ := ColumnStore.all_ordered hl
  rw [← hst] at hrun
  refine ⟨_, _, hrun, ⟨?_, hl.nodup⟩, hs.setStore hcol (hk'.trans hkind) hl'⟩
  rw [keyIds, ← hkey, hk]
  rfl

/-- A clause fails with its fault, or answers the rows of its column that satisfy it. -/
theorem clause_settles {s : Disk × Collection} (hs : Reading c₀ d R s) (cl : Clause) :
    Settles (clause cl s) (c₀.clauseFault cl) (fun m => m.ids = c₀.clauseIds R cl ∧ m.ids.Nodup)
      (Reading c₀ d R) := by
  obtain ⟨d', c⟩ := s
  obtain rfl : d' = d := hs.disk
  rw [← clauseFault_of_schema hs.schema, ← clauseIds_of_schema hs.schema]
  refine clause_rule hs (fun hcc => ⟨by rw [clauseIds, hcc]; rfl, List.nodup_nil⟩)
    fun i col o hcol hcc hord hlit => ?_
  -- the column is a tree holding `R i`, searched with an operand of its kind
  obtain ⟨t, hst, hkind, hl⟩ := hs.indexes.ordered i col hcol hord
  obtain ⟨t', hrun, hl', hk'⟩ :=
    ColumnStore.range_ordered hl cl.comparison ((ValueKind.kind_readLiteral hlit).trans hkind.symm)
  rw [← hst] at hrun
  refine ⟨_, _, hrun, ⟨?_, (List.filter_sublist.map _).nodup hl.nodup⟩, hs.setStore hcol (hk'.trans hkind) hl'⟩
  rw [clauseIds, hcc]
  simp only [hlit]
  rfl


mutual
/-- Evaluating a condition fails with its first fault, or answers the ids it selects, which are
distinct. -/
theorem evaluate_settles (cond : Condition) {s : Disk × Collection} (hs : Reading c₀ d R s) :
    Settles (evaluate cond s) (c₀.firstClauseFault cond) (fun m => m.ids = c₀.selects R cond ∧ m.ids.Nodup)
      (Reading c₀ d R) := by
  match cond with
  | .all =>
    rw [evaluate, firstClauseFault_all, selects]
    exact allRows_settles hs
  | .clause cl =>
    rw [evaluate, firstClauseFault_clause, selects]
    exact clause_settles hs cl
  | .compound operands connectors =>
    rw [evaluate, firstClauseFault_compound, selects]
    refine (evaluateAll_settles operands hs).bind_pure fun ms hms => ⟨?_, ?_⟩
    · rw [combine_ids ms connectors hms.2, hms.1]
    · rw [combine_ids ms connectors hms.2]
      exact nodup_joinIds _ _

/-- Evaluating conditions in turn fails with the first fault among them, or answers the ids
each selects. -/
theorem evaluateAll_settles (conds : List Condition) {s : Disk × Collection} (hs : Reading c₀ d R s) :
    Settles (evaluateAll conds s) (c₀.firstClauseFaultAll conds)
      (fun ms => ms.map Matches.ids = c₀.selectsAll R conds ∧ ∀ m ∈ ms, m.ids.Nodup) (Reading c₀ d R) := by
  match conds with
  | [] =>
    rw [evaluateAll, firstClauseFaultAll_nil]
    exact Settles.pure ⟨rfl, fun _ hm => nomatch hm⟩ hs
  | cond :: rest =>
    rw [evaluateAll, firstClauseFaultAll_cons, selectsAll]
    refine (evaluate_settles cond hs).bind fun m _ hm hs' => ?_
    refine (evaluateAll_settles rest hs').bind_pure fun ms hms => ⟨?_, ?_⟩
    · rw [List.map_cons, hm.1, hms.1]
    · intro m' hm'
      rcases List.mem_cons.mp hm' with rfl | hrest
      · exact hm.2
      · exact hms.2 m' hrest
end

end Collection

end ColumnDb
