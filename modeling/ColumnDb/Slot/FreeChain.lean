import ColumnDb.Slot.Basic
import Std.Data.TreeMap

/-!
# The free chain

Released slots form a chain hanging off slot 0: slot 0's link names the
first member, each member's link names the next, and the last member links
to 0. The chain in memory is the list of its members plus the link slots it
has touched since the last flush; a flush writes those slots and forgets them.

- `push` links a new member after the tail;
- `popTail` unlinks the tail and returns it;
- `remove` unlinks a member wherever it stands.

Reading a chain back (`FreeChain.open`) follows the links from slot 0 and
refuses a link beyond the latest id or back to a member already seen.
-/

namespace ColumnDb.Slot

open ColumnDb.Disk

/-- The free chain of a slot file. -/
structure FreeChain where
  layout : Layout
  /-- Members in chain order, after slot 0. -/
  members : Array Nat
  /-- Link slots touched since the last flush. -/
  touched : Std.TreeMap Nat LinkSlot
deriving Inhabited

namespace FreeChain

/-- The chain of a new file: no member, and a fresh slot 0 to be written. -/
def create (l : Layout) : FreeChain := ⟨l, #[], (∅ : Std.TreeMap Nat LinkSlot).insert 0 (LinkSlot.create l 0)⟩

/-- Follows links from `next`, gathering members. -/
def walk (d : Disk) (s : Nat) (l : Layout) (latest : Nat) (fuel next : Nat) (acc : Array Nat) :
    Except Corruption (Array Nat) :=
  match fuel with
  | 0 => .ok acc
  | fuel + 1 =>
    if next == 0 then .ok acc
    else if next > latest || acc.contains next then .error (.freeLink next latest)
    else walk d s l latest fuel (LinkSlot.load d s l next).next.value (acc.push next)

/-- Reads the chain of a stored file whose latest id is `latest`. Every member but the last
lies inside the store, so the store's length bounds the walk. -/
def «open» (d : Disk) (s : Nat) (l : Layout) (latest : Nat) : Except Corruption FreeChain := do
  let members ← walk d s l latest (d.size s + 2) (LinkSlot.load d s l 0).next.value #[]
  return ⟨l, members, ∅⟩

/-- Whether an id is a member. -/
def contains (c : FreeChain) (id : Nat) : Bool := c.members.contains id

/-- The number of members. -/
def length (c : FreeChain) : Nat := c.members.size

/-- The link slot of an id: the touched one, or the stored one. -/
def slot (c : FreeChain) (d : Disk) (s : Nat) (id : Nat) : LinkSlot :=
  match c.touched[id]? with
  | some b => b
  | none => LinkSlot.load d s c.layout id

/-- Sets the link of a slot, keeping the slot as touched. -/
def relink (c : FreeChain) (d : Disk) (s : Nat) (id next : Nat) : FreeChain :=
  { c with touched := c.touched.insert id ((c.slot d s id).setNext next) }

/-- Appends an id after the tail; its slot starts over with no successor. -/
def push (c : FreeChain) (d : Disk) (s : Nat) (id : Nat) : FreeChain :=
  let c := c.relink d s (c.members.back?.getD 0) id
  { c with members := c.members.push id, touched := c.touched.insert id (LinkSlot.create c.layout id) }

/-- Unlinks the tail and returns it. -/
def popTail (c : FreeChain) (d : Disk) (s : Nat) : Option Nat × FreeChain :=
  match c.members.back? with
  | none => (none, c)
  | some id =>
    let c := { c with members := c.members.pop }
    let c := c.relink d s (c.members.back?.getD 0) 0
    (some id, { c with touched := c.touched.erase id })

/-- Unlinks a member wherever it stands; `false` when the id is no member. -/
def remove (c : FreeChain) (d : Disk) (s : Nat) (id : Nat) : Bool × FreeChain :=
  match c.members.idxOf? id with
  | none => (false, c)
  | some p =>
    let previous := if p == 0 then 0 else c.members.getD (p - 1) 0
    let next := c.members.getD (p + 1) 0
    let c := c.relink d s previous next
    (true, { c with members := c.members.erase id, touched := c.touched.erase id })

/-- Writes every touched slot, in ascending id order, and forgets them. -/
def flush (c : FreeChain) (d : Disk) (s : Nat) : FreeChain × Disk :=
  let d := c.touched.foldl (fun d _ b => (b.flush d s).2) d
  ({ c with touched := ∅ }, d)

end FreeChain

end ColumnDb.Slot
