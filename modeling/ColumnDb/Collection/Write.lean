import ColumnDb.Collection.Basic

/-!
# Writing rows

Inserting a row writes the key first: its column hands out the row id. Every
other column the row has a value for is then written under that id. If one
of those writes fails, the row is taken out of every column that took it and
the insert answers `false`; faults found before anything is written (no key
column, no key value, a value of the wrong kind) are reported instead.

Deleting removes the ids from every column and answers whether each id was
a live row of the key column. Updating sets one column on the listed ids
that are live in the key column, and answers how many there were.

With automatic flushing on, every column a write touched is flushed after it.
-/

namespace ColumnDb

open ColumnDb.Disk ColumnDb.Column

namespace Collection

/-- Converts a row's value for a column to the column's kind. -/
def coerceFor (col : Column) : Option Value → Except CollectionError (Option Value)
  | none => .ok none
  | some v => match col.declared.kind.coerce v with
    | some w => .ok (some w)
    | none => .error (.typeMismatch col.declared.name col.declared.kind v.kind)

/-- What became of one column in an insert. -/
inductive Outcome where
  | skipped
  | written
  | failed (e : CollectionError)

/-- Whether a column took the row. -/
def Outcome.isWritten : Outcome → Bool
  | .written => true
  | _ => false

/-- The first fault among the outcomes. -/
def firstFault : List Outcome → Option CollectionError
  | [] => none
  | .failed e :: _ => some e
  | _ :: rest => firstFault rest

/-- Writes the values of the other columns under the key's id, recording each outcome. -/
def writeOthers (keyAt id : Nat) (values : List (Option Value)) : CollectionOp (List Outcome) := do
  let mut outcomes := #[]
  for (v, i) in values.zipIdx do
    if i == keyAt then outcomes := outcomes.push .written
    else match v with
      | none => outcomes := outcomes.push .skipped
      | some v =>
        let r ← tryCatch (do discard (onNamedColumn i (ColumnStore.insert v (some id))); pure Outcome.written)
          fun e => pure (Outcome.failed e)
        outcomes := outcomes.push r
  return outcomes.toList

/-- Inserts a row given by its value for each column name. -/
def insert (row : String → Option Value) : CollectionOp Bool := do
  ensureOpen
  let c := (← get).2
  let some keyAt := c.keyIndex | throw .noKeyColumn
  let values ← match c.columns.toList.mapM fun col => coerceFor col (row col.declared.name) with
    | .ok vs => pure vs
    | .error e => throw e
  let some keyValue := values.getD keyAt none
    | throw (.missingKeyValue ((c.columns[keyAt]?.map (·.declared.name)).getD ""))
  let id ← onNamedColumn keyAt (ColumnStore.insert keyValue none)
  let outcomes ← writeOthers keyAt id values
  if (firstFault outcomes).isSome then
    for (o, i) in outcomes.zipIdx do
      if o.isWritten then
        tryCatch (discard (onColumn i (ColumnStore.delete id))) fun _ => pure ()
    return false
  if c.settings.autoFlush then
    for (o, i) in outcomes.zipIdx do
      if o.isWritten then onColumn i ColumnStore.flush
  return true

/-- Deletes ids from one column, answering how many it held. -/
def deleteFrom (i : Nat) (ids : List Nat) : CollectionOp Nat := do
  let mut removed := 0
  for id in ids do
    if ← onColumn i (ColumnStore.delete id) then removed := removed + 1
  if (← get).2.settings.autoFlush && removed > 0 then onColumn i ColumnStore.flush
  return removed

/-- Deletes rows from every column; answers whether every id was a live row of the key. -/
def delete (ids : List Nat) : CollectionOp Bool := do
  ensureOpen
  let keyAt := (← get).2.keyIndex
  let mut removed := #[]
  for i in List.range (← get).2.columns.size do
    removed := removed.push (← deleteFrom i ids)
  return match keyAt with
    | some k => removed[k]? == some ids.length
    | none => false

/-- Sets a column to a value on every listed id live in the key column; answers how many. -/
def update (column : String) (ids : List Nat) (v : Value) : CollectionOp Nat := do
  ensureOpen
  let c := (← get).2
  let some i := c.position column | throw (.unknownColumn column)
  let col := c.columns[i]?.getD default
  let v ← match coerceFor col (some v) with
    | .ok (some w) => pure w
    | .ok none => throw (.unknownColumn column)
    | .error e => throw e
  let live := match c.keyIndex.bind (c.columns[·]?) with
    | some k => ids.filter k.store.contains
    | none => []
  for id in live do
    onNamedColumn i (ColumnStore.update id v)
  if c.settings.autoFlush && !live.isEmpty then onColumn i ColumnStore.flush
  return live.length

end Collection

end ColumnDb
