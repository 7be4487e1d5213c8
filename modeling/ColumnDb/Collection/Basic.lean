import ColumnDb.Column.Store
import ColumnDb.Collection.Metadata
import ColumnDb.Value.Convert
import ColumnDb.Config

/-!
# Collections

A collection is a named set of columns sharing one row-id space, kept in
`{data directory}/{database}/{collection}/`: one file set per column and the
metadata side file listing the declared columns.

The key column decides row ids. The first orderable column declared becomes
the key; a later column declared as key takes over. Unsized text cannot be
the key.

Opening a collection creates its directory and reopens every column its
metadata lists. Declaring a column that exists does nothing; declaring a
new one opens its files and writes the metadata again.
-/

namespace ColumnDb

open ColumnDb.Disk ColumnDb.Slot ColumnDb.Column

/-- A declared column and its store. -/
structure Column where
  declared : ColumnDef
  store : ColumnStore
deriving Inhabited

/-- An open collection. -/
structure Collection where
  database : String
  name : String
  directory : String
  settings : Settings
  key : Option String
  columns : Array Column
  disposed : Bool
deriving Inhabited

/-- An operation on a collection and the disk under it. -/
abbrev CollectionOp := EStateM CollectionError (Disk × Collection)

namespace Collection

/-- The position of a column. -/
def position (c : Collection) (name : String) : Option Nat :=
  c.columns.findIdx? (·.declared.name == name)

/-- The position of the key column. -/
def keyIndex (c : Collection) : Option Nat := c.key.bind c.position

/-- The declarations, each marked whether it is the key. -/
def definitions (c : Collection) : List ColumnDef :=
  c.columns.toList.map fun col => { col.declared with key := c.key == some col.declared.name }

/-- The metadata recording the collection's schema. -/
def metadata (c : Collection) : Metadata := ⟨c.key, c.definitions⟩

/-- The path of the metadata side file. -/
def metadataPath (c : Collection) : String := joinPath c.directory metadataFile

/-- Fails once the collection is disposed. -/
def ensureOpen : CollectionOp Unit := do
  let c := (← get).2
  if c.disposed then throw (.disposed c.name) else pure ()

/-- Runs an operation on a store, keeping its changes to the disk only. -/
def runStore {α : Type} (s : ColumnStore) (m : StoreOp α) : CollectionOp (α × ColumnStore) :=
  fun (d, c) => match m.run (d, s) with
    | .ok a (d, s) => .ok (a, s) (d, c)
    | .error e (d, _) => .error e (d, c)

/-- Runs an operation on the column at a position. -/
def onColumn {α : Type} (i : Nat) (m : StoreOp α) : CollectionOp α :=
  fun (d, c) => match c.columns[i]? with
    | none => .error (.unknownColumn "") (d, c)
    | some col => match m.run (d, col.store) with
      | .ok a (d, s) => .ok a (d, { c with columns := c.columns.set! i { col with store := s } })
      | .error e (d, s) => .error e (d, { c with columns := c.columns.set! i { col with store := s } })

/-- Runs an operation on a column, naming the column in its faults. -/
def onNamedColumn {α : Type} (i : Nat) (m : StoreOp α) : CollectionOp α := do
  let name := match (← get).2.columns[i]? with
    | some col => col.declared.name
    | none => ""
  tryCatch (onColumn i m) fun e => throw (e.forColumn name)

/-- Runs a disk step whose faults are file faults. -/
def onDisk {α : Type} (m : EStateM FileError Disk α) : CollectionOp α :=
  fun (d, c) => match m.run d with
    | .ok a d => .ok a (d, c)
    | .error e d => .error (.file e) (d, c)

/-- Writes the metadata side file. -/
def writeMetadata : CollectionOp Unit := do
  let (d, c) ← get
  match d.putFile c.metadataPath (Text.utf8Bytes c.metadata.render) with
  | .ok d => set (d, c)
  | .error m => throw (.io m)

/-- Adds a column unless one of its name exists, answering whether it was added. The column
becomes the key when declared as key, or when it is the first orderable column. -/
def declareIn (def_ : ColumnDef) : CollectionOp Bool := do
  let c := (← get).2
  if (c.position def_.name).isSome then pure false
  else if def_.key && !def_.isOrderable then throw (.keyNotOrderable def_.name)
  else
    let becomesKey := def_.key || (c.key.isNone && def_.isOrderable)
    let store ← onDisk (openStore c.directory def_ c.settings.textBlockSize)
    modify fun (d, c) =>
      (d, { c with
        key := if becomesKey then some def_.name else c.key
        columns := c.columns.push ⟨{ def_ with key := false }, store⟩ })
    pure true

/-- Declares a column; a new one is recorded in the metadata. -/
def declareColumn (def_ : ColumnDef) : CollectionOp Unit := do
  ensureOpen
  if ← declareIn def_ then writeMetadata

/-- Reads the metadata side file, if there is one. -/
def readMetadata (d : Disk) (path : String) : Except CollectionError (Option Metadata) :=
  match d.fileBytes? path with
  | none => if d.dirExists path then .error (.io Disk.isDirectoryFault) else .ok none
  | some bytes => match Text.decodeUtf8 bytes with
    | .error _ => .error (.io "stream did not contain valid UTF-8")
    | .ok text => match Metadata.read text with
      | .ok m => .ok (some m)
      | .error msg => .error (.json msg)

/-- Opens the collection `database/name`: creates its directory (a directory path the file system
refuses is an I/O fault) and reopens every column its metadata records, in order. -/
def «open» (d : Disk) (database name : String) (s : Settings) :
    Except CollectionError Collection × Disk :=
  let directory := s.collectionDirectory database name
  match pathFault? directory with
  | some m => (.error (.io m), d)
  | none =>
  match d.makeDirs directory with
  | .error m => (.error (.io m), d)
  | .ok d =>
  let c : Collection := ⟨database, name, directory, s, none, #[], false⟩
  match readMetadata d c.metadataPath with
  | .error e => (.error e, d)
  | .ok none => (.ok c, d)
  | .ok (some m) =>
    let run : CollectionOp Unit := m.columns.forM fun col =>
      discard (declareIn { col with key := m.key == some col.name })
    match run.run (d, c) with
    | .ok () (d, c) => (.ok c, d)
    | .error e (d, _) => (.error e, d)

/-- Whether the collection `database/name` has a metadata file. -/
def «exists» (d : Disk) (database name : String) (s : Settings) : Bool :=
  d.pathExists (joinPath (s.collectionDirectory database name) metadataFile)

/-- The key column's name. -/
def keyName : CollectionOp (Option String) := do
  ensureOpen
  return (← get).2.key

/-- The declarations in declaration order. -/
def declarations : CollectionOp (List ColumnDef) := do
  ensureOpen
  return (← get).2.definitions

/-- Writes every column's caches. -/
def flush : CollectionOp Unit := do
  ensureOpen
  for i in List.range (← get).2.columns.size do
    onColumn i ColumnStore.flush

/-- Flushes and closes every column and records the schema. Later calls do nothing. -/
def dispose : CollectionOp Unit := do
  if (← get).2.disposed then pure ()
  else
    modify fun (d, c) => (d, { c with disposed := true })
    for i in List.range (← get).2.columns.size do
      onColumn i ColumnStore.dispose
    writeMetadata

/-- Removes every column's files, the metadata file, and the directory if it is then empty. -/
def drop : CollectionOp Unit := do
  modify fun (d, c) => (d, { c with disposed := true })
  let cols := (← get).2.columns
  modify fun (d, c) => (d, { c with columns := #[] })
  for col in cols do
    discard (runStore col.store ColumnStore.destroy)
  let (d, c) ← get
  if d.dirExists c.metadataPath then throw (.io Disk.isDirectoryFault)
  let d := (d.unlink c.metadataPath).getD d
  set (d.removeEmptyDir c.directory, c)

end Collection

end ColumnDb
