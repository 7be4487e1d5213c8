import ColumnDb.Disk.Path
import ColumnDb.Value.Convert

/-!
# Settings

The settings of a store come from named variables: the data directory, the
lock timeout in milliseconds, the block size of unsized text and whether
writes flush at once. A missing variable takes its default; a malformed one
is refused, the variables being checked in the order timeout, block size,
flush. A text block must leave room for one payload byte after its 12-byte
header.
-/

namespace ColumnDb

/-- The settings of a store. -/
structure Settings where
  dataDirectory : String := "./data"
  lockTimeoutMs : Nat := 100
  textBlockSize : Nat := 4096
  autoFlush : Bool := true
deriving DecidableEq, Repr, Inhabited

/-- Why a variable's value is refused. -/
inductive SettingFault where
  | notMilliseconds (value : String)
  | notBlockSize (value : String)
  | noRoom (size : Nat)
  | notFlag (value : String)
deriving DecidableEq, Repr

/-- A refused variable. -/
structure SettingError where
  name : String
  fault : SettingFault
deriving DecidableEq, Repr

/-- The message of a refused variable. -/
def SettingError.message (e : SettingError) : String :=
  let detail := match e.fault with
    | .notMilliseconds v => "'" ++ v ++ "' is not a number of milliseconds"
    | .notBlockSize v => "'" ++ v ++ "' is not a block size"
    | .noRoom n => toString n ++ " leaves no room after the 12-byte block header"
    | .notFlag v => "'" ++ v ++ "' is not one of true, false, 1, 0"
  "invalid value for " ++ e.name ++ ": " ++ detail

namespace Settings

/-- Variable naming the data directory. -/
def dataDirectoryVar : String := "GATHERDB_DATA_DIRECTORY"
/-- Variable naming the lock timeout. -/
def lockTimeoutVar : String := "GATHERDB_LOCK_TIMEOUT_MS"
/-- Variable naming the text block size. -/
def textBlockSizeVar : String := "GATHERDB_TEXT_BLOCK_SIZE"
/-- Variable naming the flush policy. -/
def autoFlushVar : String := "GATHERDB_AUTO_FLUSH"

/-- Reads an unsigned decimal below `bound`, a leading `+` allowed. -/
def readUnsigned? (s : String) (bound : Nat) : Option Nat :=
  match readInteger? s false with
  | some n => if n < bound then some n.toNat else none
  | none => none

/-- Reads the settings through `lookup`, which maps a variable to its value. -/
def ofLookup (lookup : String → Option String) : Except SettingError Settings := do
  let dataDirectory := (lookup dataDirectoryVar).getD "./data"
  let lockTimeoutMs ← match lookup lockTimeoutVar with
    | none => pure 100
    | some v => match readUnsigned? v (Nat.pow 2 64) with
      | some n => pure n
      | none => throw ⟨lockTimeoutVar, .notMilliseconds v⟩
  let textBlockSize ← match lookup textBlockSizeVar with
    | none => pure 4096
    | some v => match readUnsigned? v (Nat.pow 2 32) with
      | some n => if n ≤ 12 then throw ⟨textBlockSizeVar, .noRoom n⟩ else pure n
      | none => throw ⟨textBlockSizeVar, .notBlockSize v⟩
  let autoFlush ← match lookup autoFlushVar with
    | none => pure true
    | some "true" | some "1" => pure true
    | some "false" | some "0" => pure false
    | some v => throw ⟨autoFlushVar, .notFlag v⟩
  return { dataDirectory, lockTimeoutMs, textBlockSize, autoFlush }

/-- The directory of one collection. -/
def collectionDirectory (s : Settings) (database collection : String) : String :=
  Disk.joinPath (Disk.joinPath s.dataDirectory database) collection

end Settings

end ColumnDb
