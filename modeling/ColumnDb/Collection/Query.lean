import ColumnDb.Collection.Basic
import Std.Data.TreeSet

/-!
# Queries

A condition selects row ids. A clause asks its column's tree for the rows
whose value compares as asked with the literal, in the tree's traversal
order; a clause on a column that is not declared selects nothing; `all`
selects every row of the key column in value order. A compound condition
evaluates every operand first, then joins the results: each `&&` from left
to right, keeping the left operand's order, then the `||`s, each adding the
ids the right side has that the left lacks.

The values read while evaluating are kept per column, so selecting a column
a clause already read takes the value from there instead of reading it
again; when two results are joined, the left one's values are kept.

Selecting builds one row per id, with the chosen columns (every declared
column when none is chosen) that the row has a value for.
-/

namespace ColumnDb

open ColumnDb.Disk ColumnDb.Column ColumnDb.Query

/-- Values already read, by column and id. -/
abbrev ValueCache := Std.TreeMap String (Std.TreeMap Nat Value)

/-- Adds the values of `b` that `a` lacks. -/
def ValueCache.merge (a b : ValueCache) : ValueCache :=
  b.foldl (fun acc column values =>
    acc.insert column (values.foldl (fun m id v => if m.contains id then m else m.insert id v)
      (acc.getD column ∅))) a

/-- The ids a condition selects, with the values read on the way. -/
structure Matches where
  ids : List Nat
  cache : ValueCache
deriving Inhabited

namespace Matches

/-- No ids. -/
def empty : Matches := ⟨[], ∅⟩

/-- The ids of rows read from a column, in their order, keeping their values. -/
def ofRows (column : String) (rows : List (Nat × Value)) : Matches :=
  ⟨rows.map (·.1), (∅ : ValueCache).insert column
    (rows.foldl (fun m (id, v) => m.insert id v) ∅)⟩

/-- The ids of `a` that `b` also has, in `a`'s order. -/
def and (a b : Matches) : Matches :=
  let keep : Std.TreeSet Nat := b.ids.foldl (·.insert ·) ∅
  ⟨if b.ids.isEmpty then [] else a.ids.filter keep.contains, a.cache.merge b.cache⟩

/-- The ids of `a`, then those of `b` not seen before. -/
def or (a b : Matches) : Matches :=
  let seen : Std.TreeSet Nat := a.ids.foldl (·.insert ·) ∅
  let (added, _) := b.ids.foldl (fun (acc : Array Nat × Std.TreeSet Nat) id =>
    if acc.2.contains id then acc else (acc.1.push id, acc.2.insert id)) (#[], seen)
  ⟨a.ids ++ added.toList, a.cache.merge b.cache⟩

/-- Joins a result with the results after it by `&&` first, leaving the `||` operands. -/
def joinAnds : Matches → List (Connector × Matches) → List Matches
  | cur, [] => [cur]
  | cur, (.and, m) :: rest => joinAnds (cur.and m) rest
  | cur, (.or, m) :: rest => cur :: joinAnds m rest

/-- Joins `||` operands from the right. -/
def joinOrs : List Matches → Matches
  | [] => empty
  | [m] => m
  | m :: rest => m.or (joinOrs rest)

/-- Joins operand results by their connectors, `&&` binding tighter. -/
def combine (results : List Matches) (connectors : List Connector) : Matches :=
  match results with
  | [] => empty
  | first :: rest => joinOrs (joinAnds first (connectors.zip rest))

/-- Drops the first `n` ids. -/
def skip (m : Matches) (n : Nat) : Matches := { m with ids := m.ids.drop n }

/-- Keeps at most `n` ids. -/
def take (m : Matches) (n : Nat) : Matches := { m with ids := m.ids.take n }

end Matches

/-- A selected row: column names in ascending order with their values. -/
abbrev Row := List (String × Value)

/-- Sets a column of a row. -/
def Row.assign (column : String) (v : Value) : Row → Row
  | [] => [(column, v)]
  | (k, w) :: rest =>
    if column < k then (column, v) :: (k, w) :: rest
    else if column == k then (column, v) :: rest
    else (k, w) :: Row.assign column v rest

namespace Collection

/-- Every row of the key column in value order; nothing without a key. -/
def allRows : CollectionOp Matches := do
  let c := (← get).2
  match c.keyIndex with
  | none => pure Matches.empty
  | some k =>
    let rows ← onNamedColumn k ColumnStore.all
    pure (Matches.ofRows ((c.key).getD "") rows)

/-- The rows a clause selects. -/
def clause (cl : Clause) : CollectionOp Matches := do
  let c := (← get).2
  match c.position cl.column, c.columns[c.position cl.column |>.getD 0]? with
  | some i, some col =>
    if !col.declared.isOrderable then throw (.notOrderable col.declared.name)
    let some operand := col.declared.kind.readLiteral? cl.literal
      | throw (.invalidLiteral col.declared.kind cl.literal)
    let rows ← onNamedColumn i (ColumnStore.range cl.comparison operand)
    pure (Matches.ofRows col.declared.name rows)
  | _, _ => pure Matches.empty

mutual
/-- The rows a condition selects. -/
def evaluate : Condition → CollectionOp Matches
  | .all => allRows
  | .clause cl => clause cl
  | .compound operands connectors => do
    return Matches.combine (← evaluateAll operands) connectors

/-- The rows each condition selects, evaluated in order. -/
def evaluateAll : List Condition → CollectionOp (List Matches)
  | [] => pure []
  | cond :: rest => do
    let m ← evaluate cond
    return m :: (← evaluateAll rest)
end

/-- Parses a condition and evaluates it. An empty condition selects every row. -/
def query (condition : String) : CollectionOp Matches := do
  ensureOpen
  match parse condition with
  | .error e => throw (.parse e)
  | .ok cond =>
    ensureOpen
    evaluate cond

/-- The values of one column for the ids, taken from the cache where it has them. -/
def fetch (i : Nat) (ids : List Nat) (cache : ValueCache) : CollectionOp (Array (Option Value)) := do
  let name := ((← get).2.columns[i]?.map (·.declared.name)).getD ""
  let cached := cache.getD name ∅
  let mut out := #[]
  for id in ids do
    match cached[id]? with
    | some v => out := out.push (some v)
    | none => out := out.push (← onNamedColumn i (ColumnStore.get id))
  return out

/-- One row per matched id with the chosen columns, every declared column when none is
chosen; a row holds only the columns it has a value for. -/
def select (m : Matches) (columns : List String) : CollectionOp (List Row) := do
  ensureOpen
  let c := (← get).2
  let targets ← if columns.isEmpty then pure (List.range c.columns.size)
    else columns.mapM fun n => match c.position n with
      | some i => pure i
      | none => throw (.unknownColumn n)
  let mut fetched := #[]
  for i in targets do
    fetched := fetched.push (((c.columns[i]?.map (·.declared.name)).getD ""), ← fetch i m.ids m.cache)
  return (List.range m.ids.length).map fun k =>
    fetched.foldl (fun row (name, values) => match values[k]? with
      | some (some v) => Row.assign name v row
      | _ => row) []

end Collection

end ColumnDb
