import Mathlib
import ColumnDb.Value.Basic

/-!
# Reading stored values back

A value that lies in its kind (`Value.Fits`: an integer in its kind's range, a
float's pattern within its width) is read back from its own encoding
(`decode_encode`). For text this is the UTF-8 round trip: the bytes of a
character, as the standard library writes them, are one sequence the reader
accepts and turns back into that character (`decodeFrom_encodeChar`).
-/

set_option autoImplicit false

namespace ColumnDb

open ColumnDb.Bytes ColumnDb.Text

/-! ## UTF-8 -/

namespace Text

/-- The UTF-8 bytes of a text, character by character. -/
theorem utf8Bytes_eq (s : String) : utf8Bytes s = s.toList.flatMap String.utf8EncodeChar := by
  unfold utf8Bytes
  rw [← String.ofList_toList (s := s), String.toUTF8_eq_toByteArray, String.toByteArray_ofList,
    String.toList_ofList, List.utf8Encode, List.data_toByteArray]

/-- The readings of a one-byte sequence and of two-, three- and four-byte sequences whose
bytes fit their lead. -/
theorem decodeFrom_one {b : UInt8} (off : Nat) (rest : List UInt8) (h : sequenceLength b = 1) :
    decodeFrom off (b :: rest) = (Char.ofNat b.toNat :: ·) <$> decodeFrom (off + 1) rest := by
  rw [decodeFrom.eq_def]
  simp [h]

theorem decodeFrom_two {b c : UInt8} (off : Nat) (rest : List UInt8) (h : sequenceLength b = 2)
    (hc : secondFits b c = true) :
    decodeFrom off (b :: c :: rest) =
      (Char.ofNat ((b.toNat % 32) * 64 + low6 c) :: ·) <$> decodeFrom (off + 2) rest := by
  rw [decodeFrom.eq_def]
  simp [h, hc]

theorem decodeFrom_three {b c e : UInt8} (off : Nat) (rest : List UInt8) (h : sequenceLength b = 3)
    (hc : secondFits b c = true) (he : isContinuation e = true) :
    decodeFrom off (b :: c :: e :: rest) =
      (Char.ofNat ((b.toNat % 16) * 4096 + low6 c * 64 + low6 e) :: ·) <$> decodeFrom (off + 3) rest := by
  rw [decodeFrom.eq_def]
  simp [h, hc, he]

theorem decodeFrom_four {b c e f : UInt8} (off : Nat) (rest : List UInt8) (h : sequenceLength b = 4)
    (hc : secondFits b c = true) (he : isContinuation e = true) (hf : isContinuation f = true) :
    decodeFrom off (b :: c :: e :: f :: rest) =
      (Char.ofNat ((b.toNat % 8) * 262144 + low6 c * 4096 + low6 e * 64 + low6 f) :: ·) <$>
        decodeFrom (off + 4) rest := by
  rw [decodeFrom.eq_def]
  simp [h, hc, he, hf]

/-- A character's code point lies below the surrogates, or above them and below U+110000. -/
theorem Char.val_cases (c : Char) :
    c.val.toNat < 0xd800 ∨ (0xdfff < c.val.toNat ∧ c.val.toNat < 0x110000) := by
  have := c.valid
  simpa [UInt32.isValidChar, Nat.isValidChar] using this

theorem toNat_byte {n : Nat} (h : n < 256) : (UInt8.ofNat n).toNat = n := by
  simp [Nat.mod_eq_of_lt h]

theorem isContinuation_byte (n : Nat) : isContinuation (UInt8.ofNat (n % 64 + 128)) = true := by
  simp only [isContinuation, toNat_byte (by omega : n % 64 + 128 < 256), beq_iff_eq]
  omega

theorem low6_byte (n : Nat) : low6 (UInt8.ofNat (n % 64 + 128)) = n % 64 := by
  simp only [low6, toNat_byte (by omega : n % 64 + 128 < 256)]
  omega

/-- The bytes of one character read back as that character, whatever follows. -/
theorem decodeFrom_encodeChar (c : Char) (off : Nat) (rest : List UInt8) :
    decodeFrom off (String.utf8EncodeChar c ++ rest) =
      (c :: ·) <$> decodeFrom (off + (String.utf8EncodeChar c).length) rest := by
  have hv := Char.val_cases c
  have hc : Char.ofNat c.val.toNat = c := Char.ofNat_toNat c
  unfold String.utf8EncodeChar
  dsimp only
  -- one case per sequence length; the lead byte's checks hold by the code point's range
  split_ifs with h₁ h₂ h₃
  · have hb := toNat_byte (by omega : c.val.toNat < 256)
    rw [List.cons_append, List.nil_append,
      decodeFrom_one _ _ (by simp only [sequenceLength, hb]; split_ifs <;> omega), hb, hc]
    rfl
  · have hb := toNat_byte (by omega : c.val.toNat / 64 % 32 + 192 < 256)
    rw [List.cons_append, List.cons_append, List.nil_append,
      decodeFrom_two _ _ (by simp only [sequenceLength, hb]; split_ifs <;> omega)
        (by simp only [secondFits, hb, isContinuation_byte]; split_ifs <;> simp_all <;> omega),
      hb, low6_byte]
    rw [show (c.val.toNat / 64 % 32 + 192) % 32 * 64 + c.val.toNat % 64 = c.val.toNat by omega, hc]
    rfl
  · -- the second byte keeps out overlong forms (after E0) and surrogates (after ED)
    have hb := toNat_byte (by omega : c.val.toNat / 4096 % 16 + 224 < 256)
    have hb₂ := toNat_byte (by omega : c.val.toNat / 64 % 64 + 128 < 256)
    rw [List.cons_append, List.cons_append, List.cons_append, List.nil_append,
      decodeFrom_three _ _ (by simp only [sequenceLength, hb]; split_ifs <;> omega)
        (by simp only [secondFits, hb, hb₂, isContinuation]; split_ifs <;> simp_all <;> omega)
        (isContinuation_byte _), hb, low6_byte, low6_byte]
    rw [show (c.val.toNat / 4096 % 16 + 224) % 16 * 4096 + c.val.toNat / 64 % 64 * 64 +
      c.val.toNat % 64 = c.val.toNat by omega, hc]
    rfl
  · -- the second byte keeps out overlong forms (after F0) and code points above U+10FFFF
    have hb := toNat_byte (by omega : c.val.toNat / 262144 % 8 + 240 < 256)
    have hb₂ := toNat_byte (by omega : c.val.toNat / 4096 % 64 + 128 < 256)
    rw [List.cons_append, List.cons_append, List.cons_append, List.cons_append, List.nil_append,
      decodeFrom_four _ _ (by simp only [sequenceLength, hb]; split_ifs <;> omega)
        (by simp only [secondFits, hb, hb₂, isContinuation]; split_ifs <;> simp_all <;> omega)
        (isContinuation_byte _) (isContinuation_byte _), hb, low6_byte, low6_byte, low6_byte]
    rw [show (c.val.toNat / 262144 % 8 + 240) % 8 * 262144 + c.val.toNat / 4096 % 64 * 4096 +
      c.val.toNat / 64 % 64 * 64 + c.val.toNat % 64 = c.val.toNat by omega, hc]
    rfl

theorem decodeFrom_flatMap : ∀ (l : List Char) (off : Nat),
    decodeFrom off (l.flatMap String.utf8EncodeChar) = .ok l
  | [], _ => by rw [decodeFrom.eq_def]; rfl
  | c :: l, off => by
    rw [List.flatMap_cons, decodeFrom_encodeChar, decodeFrom_flatMap l]
    rfl

/-- Every text is read back from its UTF-8 bytes. -/
theorem decodeUtf8_utf8Bytes (s : String) : decodeUtf8 (utf8Bytes s) = .ok s := by
  rw [decodeUtf8, utf8Bytes_eq, decodeFrom_flatMap]
  exact congrArg Except.ok String.ofList_toList

end Text

/-! ## Values -/

namespace Value

/-- A value lies in its kind: an integer in its kind's range, a float's pattern within its
width. Booleans and texts always do. -/
def Fits : Value → Prop
  | int k n => k.fits n = true
  | float k bits => bits < Nat.pow 256 k.width
  | _ => True

/-- Two's complement and back, for an integer in its kind's range. -/
theorem int_decode_encode {k : IntKind} {n : Int} (h : k.fits n = true) :
    (if k.signed then toSigned k.width (readLE (writeLE k.width (ofInt k.width n)))
      else ((readLE (writeLE k.width (ofInt k.width n)) : Nat) : Int)) = n := by
  rw [readLE_writeLE]
  cases k <;> simp [IntKind.fits, IntKind.min, IntKind.max, IntKind.signed, IntKind.width, toSigned,
    ofInt] at h ⊢ <;> omega

/-- A value that lies in its kind is read back from its encoding. -/
theorem decode_encode {v : Value} (h : v.Fits) : v.kind.decode v.encode = .ok v := by
  cases v with
  | bool b => cases b <;> rfl
  | int k n =>
    have hlen := writeLE_length k.width (ofInt k.width n)
    simp only [kind, encode, ValueKind.decode, hlen, Nat.lt_irrefl, if_false, List.take_of_length_le
      (le_of_eq hlen)]
    rw [int_decode_encode h]
  | float k bits =>
    have hlen := writeLE_length k.width bits
    simp only [kind, encode, ValueKind.decode, hlen, Nat.lt_irrefl, if_false, List.take_of_length_le
      (le_of_eq hlen), readLE_writeLE, Nat.mod_eq_of_lt (show bits < Nat.pow 256 k.width from h)]
  | text s => simp [kind, encode, ValueKind.decode, decodeUtf8_utf8Bytes]

end Value

end ColumnDb
