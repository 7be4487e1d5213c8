import ColumnDb.Disk.Path

/-!
# Disks

A disk holds numbered byte stores, a table of file paths naming some of
them, and a set of directories. A store outlives its name: a file removed
while a reader still holds its store number keeps its bytes, exactly as an
open file whose name was unlinked.

Reading past the end of a store gives zero bytes; writing past the end grows
the store, zero-filling any gap. Paths are filed under `pathKey`, so
`./data/x` and `data/x` name one file.
-/

namespace ColumnDb

namespace Disk

/-- Stores bytes one by one from an index on; every index must lie inside the array. -/
def setBytes : ByteArray → Nat → List UInt8 → ByteArray
  | b, _, [] => b
  | b, i, x :: xs => setBytes (b.set! i x) (i + 1) xs

/-- Writes bytes into a byte array at an offset, growing it with zeros as needed. -/
def writeAt (b : ByteArray) (off : Nat) (bs : List UInt8) : ByteArray :=
  let need := off + bs.length
  let grown := if b.size < need then b ++ ⟨Array.replicate (need - b.size) 0⟩ else b
  setBytes grown off bs

end Disk

/-- Numbered byte stores, the files naming them and the directories. -/
structure Disk where
  stores : Array ByteArray := #[]
  /-- Path keys and the stores they name, in creation order. -/
  files : List (String × Nat) := []
  /-- Directory keys. -/
  dirs : List String := []
deriving Inhabited

namespace Disk

/-- The bytes of a store; an unknown store is empty. -/
def bytesOf (d : Disk) (s : Nat) : ByteArray := d.stores.getD s ByteArray.empty

/-- The length of a store. -/
def size (d : Disk) (s : Nat) : Nat := (d.bytesOf s).size

/-- `len` bytes of a store from `off`, zeros past its end. -/
def read (d : Disk) (s off len : Nat) : List UInt8 :=
  let b := d.bytesOf s
  (List.range len).map fun i => if h : off + i < b.size then b[off + i] else 0

/-- Writes bytes into a store at `off`. -/
def write (d : Disk) (s off : Nat) (bs : List UInt8) : Disk :=
  if s < d.stores.size then
    match d with
    | ⟨stores, files, dirs⟩ => ⟨stores.modify s (writeAt · off bs), files, dirs⟩
  else d

/-- Every byte of a store. -/
def contents (d : Disk) (s : Nat) : List UInt8 := (d.bytesOf s).data.toList

/-- A new empty store that no path names. -/
def fresh (d : Disk) : Nat × Disk :=
  match d with
  | ⟨stores, files, dirs⟩ => (stores.size, ⟨stores.push ByteArray.empty, files, dirs⟩)

/-- The store a path names. -/
def fileStore? (d : Disk) (path : String) : Option Nat :=
  d.files.lookup (pathKey path)

/-- Whether a path names a file. -/
def fileExists (d : Disk) (path : String) : Bool := (d.fileStore? path).isSome

/-- Records directory keys not yet recorded, in order. -/
def addDirs (d : Disk) (keys : List String) : Disk :=
  { d with dirs := keys.foldl (fun ds k => if ds.contains k then ds else ds ++ [k]) d.dirs }

/-- The refusal of a directory that is already a file. -/
def fileExistsFault : String := "File exists (os error 17)"

/-- The refusal of a path that goes on below a file. -/
def notDirectoryFault : String := "Not a directory (os error 20)"

/-- The refusal of a directory where a file is needed. -/
def isDirectoryFault : String := "Is a directory (os error 21)"

/-- Creates the directories met on a walk, keys in walking order. A file met on the way
refuses the walk: when it is the directory walked to, that exists already; when it lies on
the way, what follows is no directory. -/
def createDirs (d : Disk) (keys : List String) : Except String Disk :=
  match keys.findIdx? (fun k => d.files.any (·.1 == k)) with
  | some i => .error (if i + 1 == keys.length then fileExistsFault else notDirectoryFault)
  | none => .ok (d.addDirs keys)

/-- Creates a directory and every directory walked through on the way to it. -/
def makeDirs (d : Disk) (path : String) : Except String Disk := d.createDirs (walkedDirs path)

/-- Whether a path names a directory. -/
def dirExists (d : Disk) (path : String) : Bool := d.dirs.contains (pathKey path)

/-- Whether a path names a file or a directory. -/
def pathExists (d : Disk) (path : String) : Bool := d.fileExists path || d.dirExists path

/-- Opens the file at a path, creating its directories and an empty file if it is missing.
A directory cannot be opened as a file. -/
def openFile (d : Disk) (path : String) : Except String (Nat × Disk) := do
  let d ← d.createDirs (parentDirs path)
  if d.dirExists path then throw isDirectoryFault
  match d.fileStore? path with
  | some s => pure (s, d)
  | none =>
    let (s, d) := d.fresh
    pure (s, { d with files := d.files ++ [(pathKey path, s)] })

/-- Replaces every byte of a store. -/
def setContents (d : Disk) (s : Nat) (bs : List UInt8) : Disk :=
  if s < d.stores.size then
    match d with
    | ⟨stores, files, dirs⟩ => ⟨stores.set! s ⟨bs.toArray⟩, files, dirs⟩
  else d

/-- The bytes of the file at a path, if there is one. -/
def fileBytes? (d : Disk) (path : String) : Option (List UInt8) := (d.fileStore? path).map d.contents

/-- Writes a whole file, creating it (and its directories) if it is missing. -/
def putFile (d : Disk) (path : String) (bs : List UInt8) : Except String Disk := do
  let (s, d) ← d.openFile path
  return d.setContents s bs

/-- Removes the name of a file; `none` when no file has that name. -/
def unlink (d : Disk) (path : String) : Option Disk :=
  if d.fileExists path then some { d with files := d.files.filter (·.1 != pathKey path) }
  else none

/-- Whether a key lies strictly inside a directory key. -/
def isUnder (dir key : String) : Bool := key.startsWith (dir ++ "/")

/-- Removes a directory that holds no file and no directory. -/
def removeEmptyDir (d : Disk) (path : String) : Disk :=
  let key := pathKey path
  if d.files.any (isUnder key ·.1) || d.dirs.any (isUnder key ·) then d
  else { d with dirs := d.dirs.filter (· != key) }

/-- Inserts into a list kept sorted by its first component. -/
def insertSorted (x : String × Nat) : List (String × Nat) → List (String × Nat)
  | [] => [x]
  | y :: ys => if x.1 < y.1 then x :: y :: ys else y :: insertSorted x ys

/-- The files under a directory, by path relative to it, sorted, with their lengths. -/
def filesUnder (d : Disk) (path : String) : List (String × Nat) :=
  let key := pathKey path
  let rel := d.files.filterMap fun (k, s) =>
    if isUnder key k then some ((k.drop (key.length + 1)).toString, d.size s) else none
  rel.foldl (fun acc x => insertSorted x acc) []

end Disk

end ColumnDb
