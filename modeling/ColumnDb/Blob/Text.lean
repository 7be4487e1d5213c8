import ColumnDb.Blob.File
import ColumnDb.Data.File

/-!
# Text files

A text column is two files: a data file of unsigned 64-bit pointers, one per
row, and a blob file holding each text's UTF-8 bytes. Empty text stores the
pointer 0 and no blob; every other pointer names the text's blob.

Adding stores the blob first and deletes it again when the pointer cannot be
added. Updating a row handles the four cases of an empty or present old
text and an empty or present new one: a new blob when text appears, the
blob deleted and the pointer zeroed when it disappears, the blob replaced
in place otherwise. Reading a pointer to no blob is corruption.

Every operation that spans both files works on the blobs first.
-/

namespace ColumnDb.Blob

open ColumnDb.Slot ColumnDb.Disk ColumnDb.Data ColumnDb.Text

/-- The slot capacity of the pointer file: a pointer and the slot header. -/
def pointerCapacity : Nat := 8 + chunkHeader

/-- A text column: row pointers and the blobs they name. -/
structure TextFile where
  pointers : DataFile
  blobs : BlobFile
deriving Inhabited

/-- An operation on a text file. -/
abbrev TextOp := FileOp TextFile

namespace TextFile

/-- Opens the pointer file, then the blob file. -/
def «open» (d : Disk) (pointers blobs : StoreRef) (pointerLabel blobLabel : String)
    (blobCapacity : Nat) : Except FileError TextFile := do
  let p ← DataFile.open d pointers pointerLabel (.int .u64) pointerCapacity
  let b ← BlobFile.open d blobs blobLabel blobCapacity
  return ⟨p, b⟩

/-- Runs an operation on the pointer file. -/
def onPointers {α : Type} (m : DataOp α) : TextOp α :=
  FileOp.zoom (·.pointers) (fun t p => { t with pointers := p }) m

/-- Runs an operation on the blob file. -/
def onBlobs {α : Type} (m : BlobOp α) : TextOp α :=
  FileOp.zoom (·.blobs) (fun t b => { t with blobs := b }) m

/-- A pointer as stored. -/
def pointer (p : Nat) : Value := .int .u64 p

/-- The pointer a stored value holds. -/
def pointerOf : Value → Nat
  | .int _ n => n.toNat
  | _ => 0

/-- Stores a text's blob, answering its pointer: 0 for empty text. -/
def storeBlob (s : String) : TextOp Nat :=
  if s.isEmpty then pure 0 else onBlobs (BlobFile.add (utf8Bytes s) none)

/-- Adds a text under a given id, or under a free one, and answers the id. -/
def add (s : String) (id? : Option Nat) : TextOp Nat := do
  let p ← storeBlob s
  tryCatch (onPointers (DataFile.add (pointer p) id?)) fun e => do
    if p != 0 then discard (onBlobs (BlobFile.delete p))
    FileOp.fail e

/-- The text of a row, if the id is allocated. -/
def get (id : Nat) : TextOp (Option String) := do
  match ← onPointers (DataFile.get id) with
  | none => pure none
  | some v =>
    let p := pointerOf v
    if p == 0 then pure (some "")
    else match ← onBlobs (BlobFile.get p) with
      | none => FileOp.fail (.corrupt (.missingBlob id p))
      | some bytes => match decodeUtf8 bytes with
        | .ok s => pure (some s)
        | .error f => FileOp.fail (.slot (.undecodable (.notText f)))

/-- Gives a row a new text; an id not allocated is added with it. -/
def update (id : Nat) (s : String) : TextOp Unit := do
  match ← onPointers (DataFile.get id) with
  | none => discard (add s (some id))
  | some v =>
    let p := pointerOf v
    if p == 0 then
      if s.isEmpty then pure ()
      else
        let q ← storeBlob s
        onPointers (DataFile.update id (pointer q))
    else if s.isEmpty then
      discard (onBlobs (BlobFile.delete p))
      onPointers (DataFile.update id (pointer 0))
    else onBlobs (BlobFile.update p (utf8Bytes s))

/-- Deletes a row and its blob, answering whether both were there. -/
def delete (id : Nat) : TextOp Bool := do
  match ← onPointers (DataFile.get id) with
  | none => pure false
  | some v =>
    let p := pointerOf v
    let blobDeleted ← if p == 0 then pure true else onBlobs (BlobFile.delete p)
    let pointerDeleted ← onPointers (DataFile.delete id)
    pure (blobDeleted && pointerDeleted)

/-- Whether a row holds text. -/
def contains (t : TextFile) (id : Nat) : Bool := t.pointers.core.isAllocated id

/-- Row ids holding text, ascending. -/
def ids (t : TextFile) : List Nat := t.pointers.ids

/-- Flushes the blobs, then the pointers. -/
def flush : TextOp Unit := do
  onBlobs BlobFile.flush
  onPointers DataFile.flush

/-- Disposes the blobs, then the pointers. -/
def dispose : TextOp Unit := do
  onBlobs BlobFile.dispose
  onPointers DataFile.dispose

/-- Removes the blob store, then the pointer store. -/
def destroy : TextOp Unit := do
  onBlobs BlobFile.destroy
  onPointers DataFile.destroy

end TextFile

end ColumnDb.Blob
