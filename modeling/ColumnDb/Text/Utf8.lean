/-!
# UTF-8

Text is stored as its UTF-8 bytes. Reading bytes back as text checks each
sequence: a lead byte fixes the sequence length (two to four bytes), the
second byte is range-checked against the lead (no overlong forms, no
surrogates, nothing above U+10FFFF), and later bytes must be continuation
bytes. The first bad sequence is reported by the index where the valid
prefix ends and, when the input did not simply stop early, by how many bytes
of the bad sequence were examined.
-/

namespace ColumnDb.Text

/-- Why a byte sequence is no UTF-8 text. -/
inductive Utf8Fault where
  /-- `length` bytes from index `validUpTo` form no character. -/
  | invalid (validUpTo length : Nat)
  /-- The bytes stop in the middle of a character that starts at `validUpTo`. -/
  | incomplete (validUpTo : Nat)
deriving DecidableEq, Repr

/-- The sentence that reports a fault. -/
def Utf8Fault.message : Utf8Fault → String
  | .invalid i n => "invalid utf-8 sequence of " ++ toString n ++ " bytes from index " ++ toString i
  | .incomplete i => "incomplete utf-8 byte sequence from index " ++ toString i

/-- The UTF-8 bytes of a text. -/
def utf8Bytes (s : String) : List UInt8 := s.toUTF8.data.toList

/-- Whether a byte continues a sequence. -/
def isContinuation (b : UInt8) : Bool := b.toNat / 64 == 2

/-- The length of the sequence a lead byte opens: one for ASCII, zero for no lead byte. -/
def sequenceLength (b : UInt8) : Nat :=
  let n := b.toNat
  if n < 0x80 then 1
  else if 0xC2 ≤ n ∧ n ≤ 0xDF then 2
  else if 0xE0 ≤ n ∧ n ≤ 0xEF then 3
  else if 0xF0 ≤ n ∧ n ≤ 0xF4 then 4
  else 0

/-- Whether the second byte of a sequence fits its lead byte. -/
def secondFits (lead b : UInt8) : Bool :=
  let l := lead.toNat
  let n := b.toNat
  if l == 0xE0 then 0xA0 ≤ n && n ≤ 0xBF
  else if l == 0xED then 0x80 ≤ n && n ≤ 0x9F
  else if l == 0xF0 then 0x90 ≤ n && n ≤ 0xBF
  else if l == 0xF4 then 0x80 ≤ n && n ≤ 0x8F
  else isContinuation b

/-- The payload bits of a continuation byte. -/
def low6 (b : UInt8) : Nat := b.toNat % 64

/-- Reads UTF-8 bytes as text, `offset` being the index of the first byte. -/
def decodeFrom (offset : Nat) : List UInt8 → Except Utf8Fault (List Char)
  | [] => .ok []
  | b :: rest =>
    let n := sequenceLength b
    if n == 1 then (Char.ofNat b.toNat :: ·) <$> decodeFrom (offset + 1) rest
    else if n == 0 then .error (.invalid offset 1)
    else match rest with
      | [] => .error (.incomplete offset)
      | c :: rest =>
        if !secondFits b c then .error (.invalid offset 1)
        else if n == 2 then
          (Char.ofNat ((b.toNat % 32) * 64 + low6 c) :: ·) <$> decodeFrom (offset + 2) rest
        else match rest with
          | [] => .error (.incomplete offset)
          | d :: rest =>
            if !isContinuation d then .error (.invalid offset 2)
            else if n == 3 then
              (Char.ofNat ((b.toNat % 16) * 4096 + low6 c * 64 + low6 d) :: ·) <$>
                decodeFrom (offset + 3) rest
            else match rest with
              | [] => .error (.incomplete offset)
              | e :: rest =>
                if !isContinuation e then .error (.invalid offset 3)
                else (Char.ofNat ((b.toNat % 8) * 262144 + low6 c * 4096 + low6 d * 64 + low6 e) :: ·) <$>
                  decodeFrom (offset + 4) rest

/-- Reads UTF-8 bytes as text. -/
def decodeUtf8 (bs : List UInt8) : Except Utf8Fault String :=
  String.ofList <$> decodeFrom 0 bs

end ColumnDb.Text
