/-!
# Little-endian words

Numbers are stored as a fixed count of bytes, least significant first. A
natural number is written modulo `256 ^ width`; reading the bytes back gives
that residue (`readLE_writeLE`).
-/

namespace ColumnDb.Bytes

/-- The `width` bytes of `n` modulo `256 ^ width`, least significant first. -/
def writeLE : (width n : Nat) → List UInt8
  | 0, _ => []
  | w + 1, n => (n % 256).toUInt8 :: writeLE w (n / 256)

/-- The number whose little-endian bytes are given. -/
def readLE : List UInt8 → Nat
  | [] => 0
  | b :: bs => b.toNat + 256 * readLE bs

theorem writeLE_length (w n : Nat) : (writeLE w n).length = w := by
  induction w generalizing n with
  | zero => rfl
  | succ w ih => simp [writeLE, ih]

theorem readLE_writeLE (w n : Nat) : readLE (writeLE w n) = n % Nat.pow 256 w := by
  rw [Nat.pow_eq]
  induction w generalizing n with
  | zero => simp [writeLE, readLE, Nat.mod_one]
  | succ w ih =>
    simp only [writeLE, readLE, ih]
    have h1 : ((n % 256).toUInt8).toNat = n % 256 := by
      simp [Nat.toUInt8, UInt8.toNat, UInt8.ofNat]
    rw [h1, Nat.pow_succ, Nat.mul_comm (256 ^ w) 256, Nat.mod_mul]

/-- Two's complement: the natural residue of an integer modulo `256 ^ width`. -/
def ofInt (width : Nat) (i : Int) : Nat := (i % ((Nat.pow 256 width : Nat) : Int)).toNat

/-- Reads a two's complement residue back as a signed integer. -/
def toSigned (width n : Nat) : Int :=
  if 2 * n ≥ Nat.pow 256 width then (n : Int) - (Nat.pow 256 width : Nat) else n

end ColumnDb.Bytes
