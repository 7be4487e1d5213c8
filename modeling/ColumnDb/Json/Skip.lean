import ColumnDb.Json.Read

/-!
# Skipping a JSON value

A typed reader passes over the members it has no field for. Passing over a
value checks its syntax and nothing else: numbers are not converted (so
`1e400` passes), escapes are checked but not decoded (so a lone surrogate
passes), and nesting has no limit, because the open brackets are kept as a
list rather than as calls.

Faults are placed as the reader places them, with one difference in
strings: a control character is placed before itself, not after.
-/

namespace ColumnDb

namespace JsonReader

/-- Passes over the rest of a string from `i`, after its opening quote, checking escapes. -/
def skipString (src : Src) (fuel i : Nat) : Except JsonError Nat :=
  match fuel with
  | 0 => fail src i .recursionLimit
  | fuel + 1 =>
    match at? src i with
    | none => fail src src.size .eofString
    | some b =>
      if b == 34 then .ok (i + 1)
      else if b == 92 then
        match at? src (i + 1) with
        | none => fail src src.size .eofString
        | some e =>
          if e == 34 || e == 92 || e == 47 || e == 98 || e == 102 || e == 110 || e == 114 || e == 116
          then skipString src fuel (i + 2)
          else if e == 117 then
            match hexEscape src (i + 2) with
            | .ok (_, j) => skipString src fuel j
            | .error err => .error err
          else fail src (i + 2) .invalidEscape
      else if b < 32 then fail src i .controlCharacter
      else skipString src fuel (i + 1)

/-- Passes over the exponent of a number, from its `e`. -/
def skipExponent (src : Src) (i : Nat) : Except JsonError Nat :=
  let j := match at? src (i + 1) with
    | some 43 | some 45 => i + 2
    | _ => i + 1
  match at? src j with
  | none => fail src j .invalidNumber
  | some b => if isDigitByte b then .ok (skipDigits src (j + 1)) else fail src (j + 1) .invalidNumber

/-- Passes over the fraction of a number, from its point. At least one digit must follow. -/
def skipFraction (src : Src) (i : Nat) : Except JsonError Nat :=
  let j := skipDigits src (i + 1)
  if j == i + 1 then failPeek src j .invalidNumber
  else match at? src j with
    | some 101 | some 69 => skipExponent src j
    | _ => .ok j

/-- Passes over a number from its first digit, after any sign. -/
def skipNumber (src : Src) (i : Nat) : Except JsonError Nat :=
  let rest (j : Nat) : Except JsonError Nat :=
    match at? src j with
    | some 46 => skipFraction src j
    | some 101 | some 69 => skipExponent src j
    | _ => .ok j
  match at? src i with
  | none => fail src i .invalidNumber
  | some b =>
    if b == 48 then
      match at? src (i + 1) with
      | some c => if isDigitByte c then failPeek src (i + 1) .invalidNumber else rest (i + 1)
      | none => rest (i + 1)
    else if isDigitByte b then rest (skipDigits src (i + 1))
    else fail src (i + 1) .invalidNumber

/-- An open bracket being passed over: whether it opened an object. -/
abbrev Frame := Bool

/-- The fault of a bracket left open at the end of the text. -/
def Frame.eofFault (object : Frame) : JsonFault := if object then .eofObject else .eofList

/-- The fault of a byte that neither separates nor closes inside a bracket. -/
def Frame.separatorFault (object : Frame) : JsonFault :=
  if object then .expectedObjectCommaOrEnd else .expectedListCommaOrEnd

/-- The byte that closes a bracket. -/
def Frame.closer (object : Frame) : UInt8 := if object then 125 else 93

mutual

/-- Passes over a value starting at `i` (blanks first), inside the open brackets `open_`,
innermost first; answers the index after the outermost bracket closes, or after the value
when none is open. -/
def skipFrom (src : Src) (fuel : Nat) (open_ : List Frame) (i : Nat) : Except JsonError Nat :=
  match fuel with
  | 0 => fail src i .recursionLimit
  | fuel + 1 =>
    let j := skipBlank src i
    let scalar (r : Except JsonError Nat) : Except JsonError Nat :=
      match r with
      | .ok k => afterValue src fuel open_ true k
      | .error e => .error e
    match at? src j with
    | none => failPeek src j .eofValue
    | some b =>
      if b == 110 then scalar ((·.2) <$> ident src (j + 1) "ull".toUTF8.toList)
      else if b == 116 then scalar ((·.2) <$> ident src (j + 1) "rue".toUTF8.toList)
      else if b == 102 then scalar ((·.2) <$> ident src (j + 1) "alse".toUTF8.toList)
      else if b == 45 then scalar (skipNumber src (j + 1))
      else if isDigitByte b then scalar (skipNumber src j)
      else if b == 34 then scalar (skipString src (src.size + 1) (j + 1))
      else if b == 91 then afterValue src fuel (false :: open_) false (j + 1)
      else if b == 123 then afterValue src fuel (true :: open_) false (j + 1)
      else failPeek src j .expectedValue

/-- Goes on inside the innermost open bracket at `i`: after a value (`separated` is then
true, and a comma may follow) or just after the bracket opened. Closing the last bracket
ends the value. -/
def afterValue (src : Src) (fuel : Nat) (open_ : List Frame) (separated : Bool) (i : Nat) :
    Except JsonError Nat :=
  match fuel with
  | 0 => fail src i .recursionLimit
  | fuel + 1 =>
    match open_ with
    | [] => .ok i
    | frame :: outer =>
      let j := skipBlank src i
      let next (k : Nat) : Except JsonError Nat :=
        if frame then memberKey src fuel open_ k else skipFrom src fuel open_ k
      match at? src j with
      | none => failPeek src j frame.eofFault
      | some b =>
        if b == 44 && separated then next (j + 1)
        else if b == frame.closer then
          match outer with
          | [] => .ok (j + 1)
          | _ => afterValue src fuel outer true (j + 1)
        else if separated then failPeek src j frame.separatorFault
        else next j

/-- Passes over a member's key and colon at `i` inside an object, then its value. -/
def memberKey (src : Src) (fuel : Nat) (open_ : List Frame) (i : Nat) : Except JsonError Nat :=
  match fuel with
  | 0 => fail src i .recursionLimit
  | fuel + 1 =>
    let j := skipBlank src i
    match at? src j with
    | none => failPeek src j .eofObject
    | some 34 =>
      match skipString src (src.size + 1) (j + 1) with
      | .error e => .error e
      | .ok k =>
        let c := skipBlank src k
        match at? src c with
        | some 58 => skipFrom src fuel open_ (c + 1)
        | some _ => failPeek src c .expectedColon
        | none => failPeek src c .eofObject
    | some _ => failPeek src j .keyMustBeString

end

/-- Passes over the value at `i`, answering the index just after it. -/
def skipValue (src : Src) (i : Nat) : Except JsonError Nat :=
  skipFrom src (3 * src.size + 8) [] i

end JsonReader

end ColumnDb
