import ColumnDb.Json.Basic
import ColumnDb.Json.Number
import ColumnDb.Text.Utf8

/-!
# Reading JSON

A strict reader of JSON text over its UTF-8 bytes. Blanks between tokens are
space, tab, line feed and carriage return. An error names its cause and the
line and column where reading stopped, the column counting bytes since the
last line feed; an error found by looking at the next byte is placed just
after that byte. Nesting deeper than 127 containers is refused. An integer
literal that fits 64 bits reads as an integer; every other number reads as
a 64-bit float the way `Json.Number` describes, and one whose float
overflows is refused.

Each reading step takes a fuel argument, the bytes left plus one: every step
that recurses has used up at least one byte first.
-/

namespace ColumnDb

open ColumnDb.Float ColumnDb.Text

/-- Why a JSON text cannot be read. -/
inductive JsonFault where
  | eofValue | eofList | eofObject | eofString
  | expectedColon | expectedListCommaOrEnd | expectedObjectCommaOrEnd
  | expectedIdent | expectedValue | invalidEscape | invalidNumber | numberOutOfRange
  | controlCharacter | keyMustBeString | loneLeadingSurrogate | trailingComma
  | trailingCharacters | unexpectedEndOfHexEscape | recursionLimit
  /-- A fault named by a typed reader: a value of the wrong type, a missing field, and so on. -/
  | custom (message : String)
deriving DecidableEq, Repr

/-- The words that report a fault. -/
def JsonFault.text : JsonFault → String
  | .eofValue => "EOF while parsing a value"
  | .eofList => "EOF while parsing a list"
  | .eofObject => "EOF while parsing an object"
  | .eofString => "EOF while parsing a string"
  | .expectedColon => "expected `:`"
  | .expectedListCommaOrEnd => "expected `,` or `]`"
  | .expectedObjectCommaOrEnd => "expected `,` or `\x7d`"
  | .expectedIdent => "expected ident"
  | .expectedValue => "expected value"
  | .invalidEscape => "invalid escape"
  | .invalidNumber => "invalid number"
  | .numberOutOfRange => "number out of range"
  | .controlCharacter => "control character (\\u0000-\\u001F) found while parsing a string"
  | .keyMustBeString => "key must be a string"
  | .loneLeadingSurrogate => "lone leading surrogate in hex escape"
  | .trailingComma => "trailing comma"
  | .trailingCharacters => "trailing characters"
  | .unexpectedEndOfHexEscape => "unexpected end of hex escape"
  | .recursionLimit => "recursion limit exceeded"
  | .custom message => message

/-- A JSON text that cannot be read, with the line and column where reading stopped. -/
structure JsonError where
  fault : JsonFault
  line : Nat
  column : Nat
deriving DecidableEq, Repr

/-- The message of a reading error. -/
def JsonError.message (e : JsonError) : String :=
  e.fault.text ++ " at line " ++ toString e.line ++ " column " ++ toString e.column

namespace JsonReader

/-- The text being read, as bytes. -/
abbrev Src := Array UInt8

/-- The byte at an index, if any. -/
def at? (src : Src) (i : Nat) : Option UInt8 := src[i]?

/-- The line and column of a byte index. -/
def position (src : Src) (i : Nat) : Nat × Nat :=
  let before := (src.toList.take i)
  let lineStart := match (before.zipIdx.filter (·.1 == 10)).getLast? with
    | some (_, k) => k + 1
    | none => 0
  (1 + (before.take lineStart).count 10, i - lineStart)

/-- A fault placed at an index. -/
def fail {α : Type} (src : Src) (i : Nat) (f : JsonFault) : Except JsonError α :=
  let (line, column) := position src i
  .error ⟨f, line, column⟩

/-- A fault found by looking at the byte at `i`, placed just after it. -/
def failPeek {α : Type} (src : Src) (i : Nat) (f : JsonFault) : Except JsonError α :=
  fail src (min src.size (i + 1)) f

/-- The index of the first byte at or after `i` that is no blank. -/
def skipBlank (src : Src) (i : Nat) : Nat :=
  if h : i < src.size then
    let b := src[i]
    if b == 32 || b == 10 || b == 9 || b == 13 then skipBlank src (i + 1) else i
  else i
termination_by src.size - i

/-- Whether a byte is an ASCII digit. -/
def isDigitByte (b : UInt8) : Bool := 48 ≤ b && b ≤ 57

/-- Reads the literal bytes `word` starting at `i`. -/
def ident (src : Src) (i : Nat) (word : List UInt8) : Except JsonError (Unit × Nat) :=
  match word with
  | [] => .ok ((), i)
  | w :: rest =>
    match at? src i with
    | none => fail src i .eofValue
    | some b => if b == w then ident src (i + 1) rest else fail src (i + 1) .expectedIdent

/-- The float of a literal's parts, placed for an out-of-range error at `i`. -/
def fromParts (src : Src) (i : Nat) (positive : Bool) (significand : Nat) (exponent : Int) :
    Except JsonError (JsonNumber × Nat) :=
  match jsonFloat positive significand exponent with
  | some f => .ok (.float binary64 f, i)
  | none => fail src i .numberOutOfRange

/-- Skips digits from `i`. -/
def skipDigits (src : Src) (i : Nat) : Nat :=
  if h : i < src.size then
    if isDigitByte src[i] then skipDigits src (i + 1) else i
  else i
termination_by src.size - i

/-- Reads the digits of an exponent after its first, `exp` so far; an exponent beyond the
32-bit range is out of range, or gives a zero when it is negative or the significand is 0. -/
def exponentDigits (src : Src) (i : Nat) (positive : Bool) (significand : Nat) (start : Int)
    (positiveExp : Bool) (exp : Nat) : Except JsonError (JsonNumber × Nat) :=
  let finish (_ : Unit) := fromParts src i positive significand
    (clampI32 (if positiveExp then start + exp else start - exp))
  if h : i < src.size then
    let b := src[i]
    if isDigitByte b then
      let exp := exp * 10 + (b.toNat - 48)
      if exp > i32Max then
        if significand != 0 && positiveExp then fail src (i + 1) .numberOutOfRange
        else .ok (.float binary64 (binary64.zero !positive), skipDigits src (i + 1))
      else exponentDigits src (i + 1) positive significand start positiveExp exp
    else finish ()
  else finish ()
termination_by src.size - i

/-- Reads the exponent of a number after its `e`. -/
def exponentPart (src : Src) (i : Nat) (positive : Bool) (significand : Nat) (start : Int) :
    Except JsonError (JsonNumber × Nat) :=
  let (positiveExp, j) := match at? src i with
    | some 43 => (true, i + 1)
    | some 45 => (false, i + 1)
    | _ => (true, i)
  match at? src j with
  | none => fail src j .eofValue
  | some b =>
    if isDigitByte b then exponentDigits src (j + 1) positive significand start positiveExp (b.toNat - 48)
    else fail src (j + 1) .invalidNumber

/-- Goes on after the digits of a significand at `i`: an exponent or the end. -/
def afterDigits (src : Src) (i : Nat) (positive : Bool) (significand : Nat) (exponent : Int) :
    Except JsonError (JsonNumber × Nat) :=
  match at? src i with
  | some 101 | some 69 => exponentPart src (i + 1) positive significand exponent
  | _ => fromParts src i positive significand exponent

/-- Reads fraction digits; `count` of them are in the significand so far. Digits past the
significand's capacity are skipped. At least one digit must follow the point. -/
def fractionDigits (src : Src) (i : Nat) (positive : Bool) (significand : Nat) (before : Int)
    (count : Nat) : Except JsonError (JsonNumber × Nat) :=
  let finish (_ : Unit) :=
    if count == 0 then
      match at? src i with
      | some _ => failPeek src i .invalidNumber
      | none => failPeek src i .eofValue
    else afterDigits src i positive significand (before - count)
  if h : i < src.size then
    let b := src[i]
    if isDigitByte b then
      let next := significand * 10 + (b.toNat - 48)
      if next > u64Max then afterDigits src (skipDigits src i) positive significand (before - count)
      else fractionDigits src (i + 1) positive next before (count + 1)
    else finish ()
  else finish ()
termination_by src.size - i

/-- Reads the integer digits past the significand's capacity, counting them into the exponent. -/
def longInteger (src : Src) (i : Nat) (positive : Bool) (significand count : Nat) :
    Except JsonError (JsonNumber × Nat) :=
  if h : i < src.size then
    let b := src[i]
    if isDigitByte b then longInteger src (i + 1) positive significand (count + 1)
    else if b == 46 then fractionDigits src (i + 1) positive significand count 0
    else afterDigits src i positive significand count
  else afterDigits src i positive significand count
termination_by src.size - i

/-- Goes on after the integer digits: a fraction, an exponent, or an integer. A negative
integer beyond `-2 ^ 63`, and `-0`, read as floats. -/
def afterInteger (src : Src) (i : Nat) (positive : Bool) (significand : Nat) :
    Except JsonError (JsonNumber × Nat) :=
  match at? src i with
  | some 46 => fractionDigits src (i + 1) positive significand 0 0
  | some 101 | some 69 => exponentPart src (i + 1) positive significand 0
  | _ =>
    if positive then .ok (.int significand, i)
    else if significand == 0 || significand > Nat.pow 2 63 then
      .ok (.float binary64 (binary64.negate (binary64.ofInt significand)), i)
    else .ok (.int (-(significand : Int)), i)

/-- Reads integer digits into a 64-bit significand. -/
def integerDigits (src : Src) (i : Nat) (positive : Bool) (significand : Nat) :
    Except JsonError (JsonNumber × Nat) :=
  if h : i < src.size then
    let b := src[i]
    if isDigitByte b then
      let next := significand * 10 + (b.toNat - 48)
      if next > u64Max then longInteger src i positive significand 0
      else integerDigits src (i + 1) positive next
    else afterInteger src i positive significand
  else afterInteger src i positive significand
termination_by src.size - i

/-- Reads a number whose digits start at `i`, after its sign. -/
def number (src : Src) (i : Nat) (positive : Bool) : Except JsonError (JsonNumber × Nat) :=
  match at? src i with
  | none => fail src i .eofValue
  | some b =>
    if b == 48 then
      match at? src (i + 1) with
      | some c => if isDigitByte c then failPeek src (i + 1) .invalidNumber
        else afterInteger src (i + 1) positive 0
      | none => afterInteger src (i + 1) positive 0
    else if isDigitByte b then integerDigits src (i + 1) positive (b.toNat - 48)
    else fail src (i + 1) .invalidNumber

/-- The value of a hexadecimal digit. -/
def hexValue (b : UInt8) : Option Nat :=
  if 48 ≤ b && b ≤ 57 then some (b.toNat - 48)
  else if 97 ≤ b && b ≤ 102 then some (b.toNat - 87)
  else if 65 ≤ b && b ≤ 70 then some (b.toNat - 55)
  else none

/-- Reads four hexadecimal digits at `i`. -/
def hexEscape (src : Src) (i : Nat) : Except JsonError (Nat × Nat) :=
  if i + 4 ≤ src.size then
    let ds := [0, 1, 2, 3].map fun k => (at? src (i + k)).bind hexValue
    if ds.all Option.isSome then
      .ok (ds.foldl (fun acc d => acc * 16 + d.getD 0) 0, i + 4)
    else fail src (i + 4) .invalidEscape
  else fail src src.size .eofString

/-- The UTF-8 bytes of a code point. -/
def codeBytes (n : Nat) : List UInt8 := utf8Bytes (Char.ofNat n).toString

/-- Reads the escape after a backslash at `i - 1`, giving its bytes. -/
def escape (src : Src) (i : Nat) : Except JsonError ((List UInt8) × Nat) :=
  match at? src i with
  | none => fail src i .eofString
  | some b =>
    let simple (c : Nat) : Except JsonError ((List UInt8) × Nat) := .ok ([c.toUInt8], i + 1)
    if b == 34 then simple 34 else if b == 92 then simple 92 else if b == 47 then simple 47
    else if b == 98 then simple 8 else if b == 102 then simple 12 else if b == 110 then simple 10
    else if b == 114 then simple 13 else if b == 116 then simple 9
    else if b == 117 then do
      let (n, j) ← hexEscape src (i + 1)
      if 0xDC00 ≤ n && n ≤ 0xDFFF then fail src j .loneLeadingSurrogate
      else if n < 0xD800 || n > 0xDBFF then .ok (codeBytes n, j)
      else
        match at? src j with
        | none => fail src j .eofString
        | some 92 =>
          match at? src (j + 1) with
          | none => fail src (j + 1) .eofString
          | some 117 =>
            let (m, k) ← hexEscape src (j + 2)
            if m < 0xDC00 || m > 0xDFFF then fail src k .loneLeadingSurrogate
            else .ok (codeBytes (((n - 0xD800) * 1024 + (m - 0xDC00)) + 0x10000), k)
          | some _ => fail src (j + 2) .unexpectedEndOfHexEscape
        | some _ => fail src (j + 1) .unexpectedEndOfHexEscape
    else fail src (i + 1) .invalidEscape

/-- Reads the rest of a string literal from `i`, after its opening quote. -/
def string (src : Src) (i : Nat) (acc : List UInt8) : Except JsonError (String × Nat) :=
  if h : i < src.size then
    let b := src[i]
    if b == 34 then
      .ok (match decodeUtf8 acc.reverse with | .ok s => s | .error _ => "", i + 1)
    else if b == 92 then
      match escape src (i + 1) with
      | .error e => .error e
      | .ok (bytes, j) =>
        if i < j then string src j (bytes.reverse ++ acc) else .ok ("", j)
    else if b < 32 then fail src (i + 1) .controlCharacter
    else string src (i + 1) (b :: acc)
  else fail src src.size .eofString
termination_by src.size - i

mutual

/-- Reads a value at `i`; `depth` is the nesting still allowed. -/
def value (src : Src) (fuel depth : Nat) (i : Nat) : Except JsonError (Json × Nat) :=
  match fuel with
  | 0 => fail src i .recursionLimit
  | fuel + 1 =>
    let i := skipBlank src i
    match at? src i with
    | none => failPeek src i .eofValue
    | some b =>
      if b == 110 then (fun (_, j) => (Json.null, j)) <$> ident src (i + 1) "ull".toUTF8.toList
      else if b == 116 then (fun (_, j) => (Json.bool true, j)) <$> ident src (i + 1) "rue".toUTF8.toList
      else if b == 102 then (fun (_, j) => (Json.bool false, j)) <$> ident src (i + 1) "alse".toUTF8.toList
      else if b == 45 then (fun (n, j) => (Json.num n, j)) <$> number src (i + 1) false
      else if isDigitByte b then (fun (n, j) => (Json.num n, j)) <$> number src i true
      else if b == 34 then (fun (s, j) => (Json.str s, j)) <$> string src (i + 1) []
      else if b == 91 then
        if depth ≤ 1 then failPeek src i .recursionLimit
        else do
          let (items, j) ← items src fuel (depth - 1) (i + 1) true []
          .ok (Json.arr items, j)
      else if b == 123 then
        if depth ≤ 1 then failPeek src i .recursionLimit
        else do
          let (members, j) ← members src fuel (depth - 1) (i + 1) true []
          .ok (Json.obj members, j)
      else failPeek src i .expectedValue

/-- Reads array items from `i` up to and past the closing bracket. -/
def items (src : Src) (fuel depth : Nat) (i : Nat) (first : Bool) (acc : List Json) :
    Except JsonError ((List Json) × Nat) :=
  match fuel with
  | 0 => fail src i .recursionLimit
  | fuel + 1 =>
    let i := skipBlank src i
    match at? src i with
    | some 93 => .ok (acc.reverse, i + 1)
    | none => failPeek src i .eofList
    | some b =>
      let start : Except JsonError Nat :=
        if b == 44 && !first then .ok (skipBlank src (i + 1))
        else if first then .ok i
        else failPeek src i .expectedListCommaOrEnd
      match start with
      | .error e => .error e
      | .ok k =>
        match at? src k with
        | some 93 => failPeek src k .trailingComma
        | none => failPeek src k .eofValue
        | some _ => do
          let (v, j) ← value src fuel depth k
          items src fuel depth j false (v :: acc)

/-- Reads object members from `i` up to and past the closing brace. -/
def members (src : Src) (fuel depth : Nat) (i : Nat) (first : Bool) (acc : List (String × Json)) :
    Except JsonError ((List (String × Json)) × Nat) :=
  match fuel with
  | 0 => fail src i .recursionLimit
  | fuel + 1 =>
    let i := skipBlank src i
    match at? src i with
    | some 125 => .ok (acc.reverse, i + 1)
    | none => failPeek src i .eofObject
    | some b =>
      let start : Except JsonError Nat :=
        if b == 44 && !first then .ok (skipBlank src (i + 1))
        else if first then .ok i
        else failPeek src i .expectedObjectCommaOrEnd
      match start with
      | .error e => .error e
      | .ok k =>
        match at? src k with
        | some 34 => do
          let (key, j) ← string src (k + 1) []
          let j := skipBlank src j
          match at? src j with
          | some 58 => do
            let (v, l) ← value src fuel depth (j + 1)
            members src fuel depth l false ((key, v) :: acc)
          | some _ => failPeek src j .expectedColon
          | none => failPeek src j .eofObject
        | some 125 => failPeek src k .trailingComma
        | some _ => failPeek src k .keyMustBeString
        | none => failPeek src k .eofValue

end

end JsonReader

/-- Reads a JSON text; blanks may surround the value and nothing else may follow it. -/
def Json.read (text : String) : Except JsonError Json := do
  let src := text.toUTF8.data
  let (v, i) ← JsonReader.value src (src.size + 2) 128 0
  let j := JsonReader.skipBlank src i
  if j < src.size then JsonReader.failPeek src j .trailingCharacters else pure v

end ColumnDb
