import ColumnDb.Disk.Basic
import ColumnDb.Bytes.LittleEndian
import ColumnDb.Slot.Error

/-!
# Windows and cells

A window is a run of bytes at a fixed offset of a store, held in memory
together with a dirty mark. A loaded window is clean; a created one is all
zeros and dirty, so its first flush writes it whole. Setting bytes marks the
window dirty only when they change it, and a flush writes a window exactly
when it is dirty, then marks it clean.

A cell is a window holding one little-endian number of a fixed width: a link,
a length, a depth or a header field. It keeps the number itself; its bytes
are always the number's encoding.
-/

namespace ColumnDb.Slot

open ColumnDb.Disk ColumnDb.Bytes

/-- `n` leading bytes of a list, padded with zeros when the list is shorter. -/
def takePadded (n : Nat) (bs : List UInt8) : List UInt8 :=
  bs.take n ++ List.replicate (n - bs.length) 0

/-- A run of bytes of a store, with whether it differs from what the store holds. -/
structure Window where
  offset : Nat
  capacity : Nat
  bytes : List UInt8
  dirty : Bool
deriving DecidableEq, Repr, Inhabited

namespace Window

/-- A clean window over bytes already read. -/
def ofBytes (offset capacity : Nat) (bs : List UInt8) : Window :=
  ⟨offset, capacity, takePadded capacity bs, false⟩

/-- Reads a window from a store. -/
def load (d : Disk) (s offset capacity : Nat) : Window :=
  ofBytes offset capacity (d.read s offset capacity)

/-- A new window of zeros, to be written whole. -/
def create (offset capacity : Nat) : Window :=
  ⟨offset, capacity, List.replicate capacity 0, true⟩

/-- Replaces the leading bytes; a window never grows past its capacity. -/
def update (w : Window) (bs : List UInt8) : Except SlotFault Window :=
  if bs.length > w.capacity then .error (.tooLarge bs.length w.capacity)
  else if w.bytes.take bs.length == bs then .ok w
  else .ok { w with bytes := bs ++ w.bytes.drop bs.length, dirty := true }

/-- Writes a dirty window to a store and marks it clean. -/
def flush (w : Window) (d : Disk) (s : Nat) : Window × Disk :=
  if w.dirty then ({ w with dirty := false }, d.write s w.offset w.bytes) else (w, d)

end Window

/-- One little-endian number of `width` bytes at `offset` of a store. -/
structure Cell where
  offset : Nat
  width : Nat
  value : Nat
  dirty : Bool
deriving DecidableEq, Repr, Inhabited

namespace Cell

/-- A clean cell over bytes already read. -/
def ofBytes (offset width : Nat) (bs : List UInt8) : Cell :=
  ⟨offset, width, readLE (takePadded width bs), false⟩

/-- Reads a cell from a store. -/
def load (d : Disk) (s offset width : Nat) : Cell := ofBytes offset width (d.read s offset width)

/-- A new cell, to be written. Values wrap to the width. -/
def create (offset width value : Nat) : Cell := ⟨offset, width, value % Nat.pow 256 width, true⟩

/-- Sets the number; the cell turns dirty only if the number changes. -/
def set (c : Cell) (v : Nat) : Cell :=
  let v := v % Nat.pow 256 c.width
  if v == c.value then c else { c with value := v, dirty := true }

/-- Writes a dirty cell to a store and marks it clean. -/
def flush (c : Cell) (d : Disk) (s : Nat) : Cell × Disk :=
  if c.dirty then ({ c with dirty := false }, d.write s c.offset (writeLE c.width c.value)) else (c, d)

theorem set_same (c : Cell) (h : c.value < Nat.pow 256 c.width) : c.set c.value = c := by
  rw [Nat.pow_eq] at h
  simp [set, Nat.mod_eq_of_lt h]

end Cell

end ColumnDb.Slot
