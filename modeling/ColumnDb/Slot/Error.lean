import ColumnDb.Value.Basic

/-!
# Faults of slot files

What can go wrong below a column: a value too large for a slot's payload or
stored bytes that decode to no value (slot faults), a header that disagrees
with the requested slot size, an id that is taken, links that lead nowhere
or in circles (corruption), a file used after it was disposed, or a file
removed behind its owner's back.
-/

namespace ColumnDb

/-- A fault of one slot. -/
inductive SlotFault where
  /-- A payload of `length` bytes where only `capacity` fit. -/
  | tooLarge (length capacity : Nat)
  | undecodable (fault : DecodeFault)
deriving DecidableEq, Repr

/-- The sentence that reports a slot fault. -/
def SlotFault.message : SlotFault → String
  | .tooLarge n c => "value of " ++ toString n ++ " bytes exceeds block payload capacity " ++ toString c
  | .undecodable f => "cannot decode stored value: " ++ f.message

/-- Links of a slot file that cannot be followed. -/
inductive Corruption where
  /-- The free chain reaches a slot beyond the latest id, or one it passed already. -/
  | freeLink (slot latest : Nat)
  /-- A blob chain starting at `start` reaches a slot it cannot own. -/
  | blobLink (start slot : Nat)
  /-- Descending from the root took more steps than there are ids. -/
  | treeCycle (label : String) (root : Nat)
  | nullLink (label : String)
  | missingBlob (row pointer : Nat)
deriving DecidableEq, Repr

/-- The sentence that reports a corruption. -/
def Corruption.message : Corruption → String
  | .freeLink s l => "free list links to slot " ++ toString s ++ " (latest allocated id " ++ toString l ++ ")"
  | .blobLink i s => "blob chain from slot " ++ toString i ++ " links to slot " ++ toString s
  | .treeCycle label r => label ++ " has a cycle below node " ++ toString r
  | .nullLink label => label ++ " followed a null tree link"
  | .missingBlob r p => "row " ++ toString r ++ " points to missing blob " ++ toString p

/-- A fault of a slot file. -/
inductive FileError where
  /-- The file was removed before its owner removed it. -/
  | removed (path : String)
  /-- The operating system refused a file operation. -/
  | io (message : String)
  | slot (fault : SlotFault)
  | capacityMismatch (label : String) (stored requested : Nat)
  | invalidCapacity (capacity : Nat)
  | idInUse (id : Nat)
  | corrupt (c : Corruption)
  | disposed (label : String)
deriving DecidableEq, Repr

/-- The message of a file fault. -/
def FileError.message : FileError → String
  | .removed p => "storage error: storage removed: " ++ p
  | .io m => "storage error: I/O error: " ++ m
  | .slot f => "block error: " ++ f.message
  | .capacityMismatch l s r =>
    l ++ " was created with block capacity " ++ toString s ++ ", cannot open with " ++ toString r
  | .invalidCapacity c => "block capacity " ++ toString c ++ " is too small"
  | .idInUse id => "block " ++ toString id ++ " is already in use"
  | .corrupt c => "corrupt gather: " ++ c.message
  | .disposed l => l ++ " has been disposed"

/-- The family an error belongs to, as the program names it. -/
def FileError.kind : FileError → String
  | .removed _ | .io _ => "Storage"
  | .slot _ => "Block"
  | .capacityMismatch .. => "CapacityMismatch"
  | .invalidCapacity _ => "InvalidCapacity"
  | .idInUse _ => "IdInUse"
  | .corrupt _ => "Corrupt"
  | .disposed _ => "Disposed"

end ColumnDb
