import ColumnDb.Cli

/-!
# The command-line program

The outer layer of the query command. It reads the arguments and the
environment variables the settings look at, loads the collection's files
into a disk, runs `runCli`, writes back every file the command changed or
created, prints what the command printed, and exits with its status.

Every decision the command makes is taken in `runCli`; this layer only moves
bytes between the file system and a disk. The files loaded are the ones the
command can reach: the collection's metadata and, for each column it lists,
the column's file and its blob file.
-/

namespace ColumnDb.Command

open ColumnDb.Disk ColumnDb.Column

/-- The environment variables the settings read. -/
def settingVars : List String :=
  [Settings.dataDirectoryVar, Settings.lockTimeoutVar, Settings.textBlockSizeVar, Settings.autoFlushVar]

/-- The files of a collection directory the command may open, given its metadata's bytes. -/
def reachableFiles (directory : String) (metadata : List UInt8) : List String :=
  match Text.decodeUtf8 metadata with
  | .error _ => []
  | .ok text => match Metadata.read text with
    | .error _ => []
    | .ok m => m.columns.flatMap fun c =>
      [joinPath directory (columnFile c.name), joinPath directory (blobFile c.name)]

/-- The collection directory the arguments name, when they name one and the settings read. -/
def targetDirectory (args : List String) (env : String → Option String) : Option String :=
  match args, Settings.ofLookup env with
  | database :: name :: _, .ok s => some (s.collectionDirectory database name)
  | _, _ => none

/-- The files a disk holds that differ from what was loaded, or were not loaded at all. -/
def changedFiles (loaded : List (String × List UInt8)) (d : Disk) : List (String × List UInt8) :=
  d.files.filterMap fun (key, s) =>
    let now := d.contents s
    if loaded.lookup key == some now then none else some (key, now)

/-- Reads a file's bytes; nothing when it cannot be read. -/
def readBytes? (path : String) : IO (Option (List UInt8)) := do
  try
    let bs ← IO.FS.readBinFile path
    return some bs.data.toList
  catch _ => return none

/-- Loads the files the command can reach into a fresh disk, with what was read. -/
def load (directory : Option String) : IO (Disk × List (String × List UInt8)) := do
  match directory with
  | none => return ({}, [])
  | some dir =>
    let metaPath := joinPath dir metadataFile
    match ← readBytes? metaPath with
    | none => return ({}, [])
    | some bytes =>
      let mut d : Disk := (({} : Disk).putFile metaPath bytes).toOption.getD {}
      let mut loaded := [(pathKey metaPath, bytes)]
      for path in reachableFiles dir bytes do
        if let some bs ← readBytes? path then
          d := (d.putFile path bs).toOption.getD d
          loaded := loaded ++ [(pathKey path, bs)]
      return (d, loaded)

/-- Writes every changed file back, creating its directories. -/
def store (files : List (String × List UInt8)) : IO Unit := do
  for (key, bs) in files do
    let parent := parentKey key
    if !parent.isEmpty then IO.FS.createDirAll parent
    IO.FS.writeBinFile key ⟨bs.toArray⟩

end ColumnDb.Command

open ColumnDb ColumnDb.Command in
/-- Runs the query command on the real file system. -/
def main (args : List String) : IO UInt32 := do
  let mut vars : List (String × String) := []
  for name in settingVars do
    if let some v ← IO.getEnv name then vars := vars ++ [(name, v)]
  let env := fun (name : String) => vars.lookup name
  let (d, loaded) ← load (targetDirectory args env)
  let (outcome, d) := runCli args env d
  store (changedFiles loaded d)
  let out ← IO.getStdout
  for line in outcome.stdout do out.putStrLn line
  out.flush
  let err ← IO.getStderr
  for line in outcome.stderr do err.putStrLn line
  err.flush
  return outcome.status.toUInt32
