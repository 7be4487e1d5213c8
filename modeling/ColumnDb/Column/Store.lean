import ColumnDb.Tree.File
import ColumnDb.Blob.Text
import ColumnDb.Schema.Column
import ColumnDb.Collection.Error

/-!
# Column stores

A column is backed by a tree file when its values keep an order, and by a
text file otherwise (unsized or long text). A column store speaks values of
any kind and checks that each value is of the column's kind; a mismatch is
reported without the column's name, which the collection fills in.

Only a tree column answers comparisons; listing every row gives value order
for a tree and id order for text.

Opening a column creates its files first and reads them after, so a column
whose header is refused still leaves its files behind.
-/

namespace ColumnDb.Column

open ColumnDb.Slot ColumnDb.Disk ColumnDb.Tree ColumnDb.Data ColumnDb.Blob

/-- The file behind a column. -/
inductive ColumnStore where
  | ordered (t : TreeFile)
  | text (t : TextFile)
deriving Inhabited

/-- An operation on a column store. -/
abbrev StoreOp := EStateM CollectionError (Disk × ColumnStore)

namespace ColumnStore

/-- The kind of the column's values. -/
def kind : ColumnStore → ValueKind
  | ordered t => t.kind
  | text _ => .text

/-- Whether the column answers comparisons. -/
def isOrderable : ColumnStore → Bool
  | ordered _ => true
  | text _ => false

/-- Whether a row holds a value. -/
def contains (s : ColumnStore) (id : Nat) : Bool :=
  match s with
  | ordered t => t.contains id
  | text t => t.contains id

/-- Runs a tree file operation. -/
def onTree {α : Type} (m : TreeOp α) (d : Disk) (t : TreeFile) :
    EStateM.Result CollectionError (Disk × ColumnStore) α :=
  match m.run (d, t) with
  | .ok a (d, t) => .ok a (d, ordered t)
  | .error e (d, t) => .error (.file e) (d, ordered t)

/-- Runs a text file operation. -/
def onText {α : Type} (m : TextOp α) (d : Disk) (t : TextFile) :
    EStateM.Result CollectionError (Disk × ColumnStore) α :=
  match m.run (d, t) with
  | .ok a (d, t) => .ok a (d, text t)
  | .error e (d, t) => .error (.file e) (d, text t)

/-- Runs the operation for the column's file. -/
def dispatch {α : Type} (tree : TreeFile → TreeOp α) (txt : TextFile → TextOp α) : StoreOp α :=
  fun (d, s) => match s with
    | ordered t => onTree (tree t) d t
    | text t => onText (txt t) d t

/-- Checks a value against the column's kind. -/
def expect (v : Value) : StoreOp Unit := fun (d, s) =>
  if v.kind == s.kind then .ok () (d, s) else .error (.typeMismatch "" s.kind v.kind) (d, s)

/-- The text of a text value. -/
def textOf : Value → String
  | .text s => s
  | _ => ""

/-- Adds a value under a given id, or a free one, and answers the id. -/
def insert (v : Value) (id? : Option Nat) : StoreOp Nat := do
  expect v
  dispatch (fun _ => TreeFile.add v id?) (fun _ => TextFile.add (textOf v) id?)

/-- The value of a row. -/
def get (id : Nat) : StoreOp (Option Value) :=
  dispatch (fun _ => TreeFile.get id) (fun _ => do return (← TextFile.get id).map .text)

/-- Gives a row a new value. -/
def update (id : Nat) (v : Value) : StoreOp Unit := do
  expect v
  dispatch (fun _ => TreeFile.update id v) (fun _ => TextFile.update id (textOf v))

/-- Deletes a row, answering whether it held a value. -/
def delete (id : Nat) : StoreOp Bool :=
  dispatch (fun _ => TreeFile.delete id) (fun _ => TextFile.delete id)

/-- Reads every row's value from a text file, in id order. -/
def textRows : List Nat → Array (Nat × Value) → TextOp (List (Nat × Value))
  | [], out => pure out.toList
  | id :: ids, out => do
    match ← TextFile.get id with
    | some s => textRows ids (out.push (id, .text s))
    | none => textRows ids out

/-- The rows whose value satisfies a comparison, in value order. -/
def range (cmp : Comparison) (operand : Value) : StoreOp (List (Nat × Value)) := fun (d, s) =>
  match s with
  | ordered t =>
    if operand.kind == t.kind then onTree (TreeFile.range cmp operand) d t
    else .error (.typeMismatch "" t.kind operand.kind) (d, s)
  | text _ => .error (.notOrderable "") (d, s)

/-- Every row: in value order for a tree, in id order for text. -/
def all : StoreOp (List (Nat × Value)) :=
  dispatch (fun _ => TreeFile.all) (fun t => textRows t.ids #[])

/-- Writes the column's caches. -/
def flush : StoreOp Unit := dispatch (fun _ => TreeFile.flush) (fun _ => TextFile.flush)

/-- Flushes and closes the column. -/
def dispose : StoreOp Unit := dispatch (fun _ => TreeFile.dispose) (fun _ => TextFile.dispose)

/-- Removes the column's files. -/
def destroy : StoreOp Unit := dispatch (fun _ => TreeFile.destroy) (fun _ => TextFile.destroy)

end ColumnStore

/-- The file name of a column's main file. -/
def columnFile (name : String) : String := name ++ ".gather"

/-- The file name of a text column's blob file. -/
def blobFile (name : String) : String := name ++ "_text.gather"

/-- Opens a file of a column: creates it, then reads it. -/
def openFileAt {α : Type} (path : String) (f : Disk → StoreRef → Except FileError α) :
    EStateM FileError Disk α := fun d =>
  match StoreRef.create d path with
  | .error e => .error e d
  | .ok (r, d) => match f d r with
    | .ok a => .ok a d
    | .error e => .error e d

/-- Opens (or creates) the files behind a column declared in a directory. -/
def openStore (directory : String) (c : ColumnDef) (textBlockSize : Nat) :
    EStateM FileError Disk ColumnStore := do
  let path := joinPath directory (columnFile c.name)
  match c.storage textBlockSize with
  | .ordered capacity =>
    let t ← openFileAt path fun d r => TreeFile.open d r path c.kind capacity
    pure (.ordered t)
  | .text blobCapacity =>
    let p ← openFileAt path fun d r => DataFile.open d r path (.int .u64) pointerCapacity
    let blobPath := joinPath directory (blobFile c.name)
    let b ← openFileAt blobPath fun d r => BlobFile.open d r blobPath blobCapacity
    pure (.text ⟨p, b⟩)

end ColumnDb.Column
