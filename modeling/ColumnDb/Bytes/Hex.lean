/-!
# Hexadecimal digits

Bytes and numbers written as base-sixteen digits, lowercase, and read back from
digits of either case. A byte is two digits, high half first, so a byte string
of length `n` is `2 * n` digits and reads back as itself (`ofHex_toHex`).
-/

namespace ColumnDb.Bytes

/-- The value of one hexadecimal digit of either case. -/
def hexDigit? (c : Char) : Option Nat :=
  if c.isDigit then some (c.toNat - 48)
  else if 'a' ≤ c ∧ c ≤ 'f' then some (c.toNat - 87)
  else if 'A' ≤ c ∧ c ≤ 'F' then some (c.toNat - 55) else none

/-- The number a run of hexadecimal digits spells, most significant first. -/
def hexNat? (s : String) : Option Nat :=
  s.toList.foldlM (fun acc c => (hexDigit? c).map (acc * 16 + ·)) 0

/-- The lowercase digits of `n`, padded with zeros on the left to `width`. -/
def hexPad (width n : Nat) : String :=
  let ds := Nat.toDigits 16 n
  String.ofList (List.replicate (width - ds.length) '0' ++ ds)

/-- The lowercase digit of a value below sixteen. -/
def hexChar (v : Nat) : Char := Nat.digitChar v

/-- The two digits of one byte, high half first. -/
def hexPair (b : UInt8) : List Char := [hexChar (b.toNat / 16), hexChar (b.toNat % 16)]

/-- The digits of a byte string. -/
def toHex (bs : List UInt8) : String := String.ofList (bs.flatMap hexPair)

/-- The bytes that pairs of digits spell; an odd count or a non-digit reads as nothing. -/
def bytesOfDigits : List Char → Option (List UInt8)
  | [] => some []
  | a :: b :: rest => do
    let x ← hexDigit? a
    let y ← hexDigit? b
    return (x * 16 + y).toUInt8 :: (← bytesOfDigits rest)
  | [_] => none

/-- The bytes a hexadecimal string spells. -/
def ofHex (s : String) : Option (List UInt8) := bytesOfDigits s.toList

/-- Every digit written for a value below sixteen reads back as that value. -/
theorem hexDigit_hexChar {v : Nat} (h : v < 16) : hexDigit? (hexChar v) = some v := by
  rcases v with _ | _ | _ | _ | _ | _ | _ | _ | _ | _ | _ | _ | _ | _ | _ | _ | v
  all_goals first | rfl | omega

/-- The digits of a byte string read back as that byte string. -/
theorem bytesOfDigits_flatMap (bs : List UInt8) : bytesOfDigits (bs.flatMap hexPair) = some bs := by
  induction bs with
  | nil => rfl
  | cons b rest ih =>
    have hi : b.toNat / 16 < 16 := by have := b.toNat_lt; omega
    have lo : b.toNat % 16 < 16 := Nat.mod_lt _ (by decide)
    have whole : (b.toNat / 16 * 16 + b.toNat % 16).toUInt8 = b := by
      rw [Nat.div_add_mod']
      exact UInt8.ofNat_toNat
    simp only [List.flatMap_cons, hexPair, List.cons_append, List.nil_append, bytesOfDigits,
      hexDigit_hexChar hi, hexDigit_hexChar lo, ih]
    show some ((b.toNat / 16 * 16 + b.toNat % 16).toUInt8 :: rest) = some (b :: rest)
    rw [whole]

/-- Writing a byte string in hexadecimal and reading it back gives the same bytes. -/
theorem ofHex_toHex (bs : List UInt8) : ofHex (toHex bs) = some bs := by
  simp [ofHex, toHex, bytesOfDigits_flatMap]

end ColumnDb.Bytes
