import ColumnDb.Json.Skip

/-!
# Reading JSON against a schema

A schema says what a JSON text must hold: strings, sizes, booleans,
optional values, lists, records with named fields, and choices among named
alternatives. Reading a text against a schema gives a `Datum` of that
shape, or a fault that names what was wrong and where.

The rules are those of a reader derived field by field from a record type:

* A record is an object or a list. In an object, members name fields;
  members with no field are passed over (`Json.Skip`); a field named twice is
  a fault; a missing field takes its default, is absent when optional, and
  is a fault otherwise. In a list, the values are the fields in order;
  missing trailing values take defaults where fields have them, and one
  value too many is a fault of trailing characters.
* A choice is the name of an alternative, or an object with the name as its
  only key and `null` as its value.
* A value of another type is a fault that describes the value found
  (`Found`) and the type expected.

Where a fault is placed: a fault of lifted, or of a value of the wrong
type, where reading stopped; a fault about a whole record (a field missing
or named twice, too few values) after the reader has looked for the
record's closing bracket, consuming it when it is there.
-/

namespace ColumnDb

open ColumnDb.Float ColumnDb.Text

/-- A value read against a schema. -/
inductive Datum where
  | text (s : String)
  | size (n : Nat)
  | flag (b : Bool)
  | absent
  | present (d : Datum)
  | list (items : List Datum)
  | record (fields : List Datum)
  | choice (index : Nat)
deriving Repr, Inhabited

/-- What a text must hold at one place. -/
inductive Schema where
  /-- A string. -/
  | text
  /-- A natural number below `2 ^ 64`. -/
  | size
  /-- A boolean. -/
  | flag
  /-- `null`, or a value of the inner schema. -/
  | optional (inner : Schema)
  /-- A list of values of one schema. -/
  | list (item : Schema)
  /-- A record of named fields, each with its schema and its default, if any. -/
  | record (name : String) (fields : List (String × Schema × Option Datum))
  /-- One of the named alternatives, by position. -/
  | choice (names : List String)
deriving Inhabited

/-- Lowercase hexadecimal digits of a number, without leading zeros. -/
def hexDigits (n : Nat) : String := String.ofList (Nat.toDigits 16 n)

/-- Code ranges, inclusive, of characters a fault writes as escapes: controls, blanks other
than the space, invisible format characters, line and paragraph separators, private use,
noncharacters, and the combining marks that extend the character before them. -/
def escapedRanges : List (Nat × Nat) :=
  [(0x0, 0x1f), (0x7f, 0xa0), (0xad, 0xad), (0x300, 0x36f), (0x483, 0x489), (0x591, 0x5bd),
   (0x610, 0x61a), (0x64b, 0x65f), (0x1680, 0x1680), (0x1ab0, 0x1aff), (0x1dc0, 0x1dff),
   (0x2000, 0x200f), (0x2028, 0x202f), (0x205f, 0x2064), (0x2066, 0x206f), (0x20d0, 0x20ff),
   (0x3000, 0x3000), (0x302a, 0x302f), (0x3099, 0x309a), (0xd800, 0xf8ff), (0xfe00, 0xfe0f),
   (0xfe20, 0xfe2f), (0xfeff, 0xfeff), (0xfff0, 0xfffb), (0xfffe, 0xffff), (0xe0000, 0xe0fff),
   (0xf0000, 0x10ffff)]

/-- A character as it stands inside a quoted string in a fault: quotes, backslashes and the
usual controls by their short escapes, other characters of `escapedRanges` by their code in
hexadecimal, everything else as itself. -/
def debugChar (c : Char) : String :=
  if c == '"' then "\\\"" else if c == '\\' then "\\\\"
  else if c == '\n' then "\\n" else if c == '\r' then "\\r" else if c == '\t' then "\\t"
  else if c.toNat == 0 then "\\0"
  else if escapedRanges.any (fun (lo, hi) => lo ≤ c.toNat && c.toNat ≤ hi) then
    "\\u\x7b" ++ hexDigits c.toNat ++ "\x7d"
  else c.toString

/-- A string quoted as a fault shows it. -/
def debugQuote (s : String) : String := "\"" ++ String.join (s.toList.map debugChar) ++ "\""

/-- How a value of the wrong type is described. -/
inductive Found where
  | null
  | bool (b : Bool)
  | unsigned (n : Nat)
  | signed (n : Int)
  | float (bits : Nat)
  | str (s : String)
  | sequence
  | map

/-- The description of a value found where another type was expected. -/
def Found.describe : Found → String
  | .null => "null"
  | .bool b => "boolean `" ++ (if b then "true" else "false") ++ "`"
  | .unsigned n => "integer `" ++ toString n ++ "`"
  | .signed n => "integer `" ++ toString n ++ "`"
  | .float bits => "floating point `" ++ (JsonNumber.float binary64 bits).render ++ "`"
  | .str s => "string " ++ debugQuote s
  | .sequence => "sequence"
  | .map => "map"

/-- How a number read from the text is described. -/
def Found.ofNumber : JsonNumber → Found
  | .int n => if n < 0 then .signed n else .unsigned n.toNat
  | .float fmt bits => .float (fmt.convert binary64 bits)

/-- The message of a value of the wrong type. -/
def invalidType (found : Found) (expected : String) : String :=
  "invalid type: " ++ found.describe ++ ", expected " ++ expected

/-- Names listed as a reader lists the alternatives it expected. -/
def oneOf : List String → String
  | [] => "nothing"
  | [a] => "`" ++ a ++ "`"
  | [a, b] => "`" ++ a ++ "` or `" ++ b ++ "`"
  | names => "one of " ++ ", ".intercalate (names.map fun n => "`" ++ n ++ "`")

/-- The message of a choice naming no alternative. -/
def unknownVariant (name : String) (names : List String) : String :=
  if names.isEmpty then "unknown variant `" ++ name ++ "`, there are no variants"
  else "unknown variant `" ++ name ++ "`, expected " ++ oneOf names

/-- A fault of reading against a schema: placed, or still to be placed once the enclosing
record has looked for its closing bracket from `index`. -/
inductive SchemaFault where
  | placed (e : JsonError)
  | pending (message : String) (index : Nat)

namespace Schema

/-- What a value of the schema is called in a fault. -/
def expecting : Schema → String
  | text => "a string"
  | size => "usize"
  | flag => "a boolean"
  | optional inner => inner.expecting
  | list _ => "a sequence"
  | record name _ => "struct " ++ name
  | choice _ => "variant identifier"

end Schema

namespace JsonReader

/-- A fault placed at an index. -/
def errorAt (src : Src) (i : Nat) (f : JsonFault) : JsonError :=
  let (line, column) := position src i
  ⟨f, line, column⟩

/-- A fault of a typed reader placed at an index. -/
def placeAt {α : Type} (src : Src) (i : Nat) (message : String) : Except SchemaFault α :=
  .error (.placed (errorAt src i (.custom message)))

/-- Lifts a lifted fault. -/
def lifted {α : Type} (r : Except JsonError α) : Except SchemaFault α :=
  match r with
  | .ok a => .ok a
  | .error e => .error (.placed e)

/-- The fault of the value at `j` when `expected` was wanted there: the value is read first,
and the fault is placed after it; a bracket is described without being read. -/
def wrongType {α : Type} (src : Src) (j : Nat) (expected : String) : Except SchemaFault α :=
  let after (r : Except JsonError (Found × Nat)) : Except SchemaFault α :=
    match r with
    | .ok (found, k) => placeAt src k (invalidType found expected)
    | .error e => .error (.placed e)
  match at? src j with
  | some 110 => after ((fun (_, k) => (Found.null, k)) <$> ident src (j + 1) "ull".toUTF8.toList)
  | some 116 => after ((fun (_, k) => (Found.bool true, k)) <$> ident src (j + 1) "rue".toUTF8.toList)
  | some 102 => after ((fun (_, k) => (Found.bool false, k)) <$> ident src (j + 1) "alse".toUTF8.toList)
  | some 45 => after ((fun (n, k) => (Found.ofNumber n, k)) <$> number src (j + 1) false)
  | some 34 => after ((fun (s, k) => (Found.str s, k)) <$> string src (j + 1) [])
  | some 91 => placeAt src j (invalidType .sequence expected)
  | some 123 => placeAt src j (invalidType .map expected)
  | some b =>
    if isDigitByte b then after ((fun (n, k) => (Found.ofNumber n, k)) <$> number src j true)
    else lifted (failPeek src j .expectedValue)
  | none => lifted (failPeek src j .expectedValue)

/-- Looks for the closing bracket of a list from `i`: the index reached, and the fault when
something else stands there. -/
def closeList (src : Src) (i : Nat) : Nat × Option JsonError :=
  let j := skipBlank src i
  let fault (k : Nat) (f : JsonFault) : Nat × Option JsonError :=
    (k, some (errorAt src (min src.size (k + 1)) f))
  match at? src j with
  | some 93 => (j + 1, none)
  | some 44 =>
    let k := skipBlank src (j + 1)
    fault k (if at? src k == some 93 then .trailingComma else .trailingCharacters)
  | some _ => fault j .trailingCharacters
  | none => fault j .eofList

/-- Looks for the closing brace of an object from `i`: the index reached, and the fault when
something else stands there. -/
def closeObject (src : Src) (i : Nat) : Nat × Option JsonError :=
  let j := skipBlank src i
  let fault (f : JsonFault) : Nat × Option JsonError :=
    (j, some (errorAt src (min src.size (j + 1)) f))
  match at? src j with
  | some 125 => (j + 1, none)
  | some 44 => fault .trailingComma
  | some _ => fault .trailingCharacters
  | none => fault .eofObject

/-- Finishes a record read between brackets: a pending fault is placed where looking for the
closing bracket stopped; otherwise a bracket that is not there is the fault. -/
def closeRecord (src : Src) (close : Src → Nat → Nat × Option JsonError)
    (r : Except SchemaFault (List Datum × Nat)) : Except SchemaFault (Datum × Nat) :=
  match r with
  | .error (.placed e) => .error (.placed e)
  | .error (.pending message index) => placeAt src (close src index).1 message
  | .ok (fields, k) =>
    match close src k with
    | (j, none) => .ok (.record fields, j)
    | (_, some e) => .error (.placed e)

/-- The colon after a member's key, from `i`: the index after it. -/
def colon (src : Src) (i : Nat) : Except SchemaFault Nat :=
  let j := skipBlank src i
  match at? src j with
  | some 58 => .ok (j + 1)
  | some _ => lifted (failPeek src j .expectedColon)
  | none => lifted (failPeek src j .eofObject)

/-- The position of a name in a list of alternatives, if it is one. -/
def indexOf (names : List String) (name : String) : Option Nat := names.findIdx? (· == name)

/-- Reads the name of an alternative at `i`, blanks first; a string naming none is a fault
placed after it. -/
def variantName (src : Src) (names : List String) (i : Nat) : Except SchemaFault (Nat × Nat) :=
  let j := skipBlank src i
  match at? src j with
  | none => lifted (failPeek src j .eofValue)
  | some 34 =>
    match string src (j + 1) [] with
    | .error e => .error (.placed e)
    | .ok (s, k) =>
      match indexOf names s with
      | some n => .ok (n, k)
      | none => placeAt src k (unknownVariant s names)
  | some _ => wrongType src j "variant identifier"

/-- Reads `null` at `i`, blanks first, as the content of a bare alternative. -/
def unitValue (src : Src) (i : Nat) : Except SchemaFault Nat :=
  let j := skipBlank src i
  match at? src j with
  | some 110 => lifted ((·.2) <$> ident src (j + 1) "ull".toUTF8.toList)
  | some _ => wrongType src j "unit"
  | none => lifted (failPeek src j .eofValue)

/-- Reads a choice at `i`, blanks first. -/
def readChoice (src : Src) (names : List String) (i : Nat) : Except SchemaFault (Datum × Nat) :=
  let j := skipBlank src i
  match at? src j with
  | some 123 => do
    let (n, k) ← variantName src names (j + 1)
    let c ← colon src k
    let e ← unitValue src c
    let m := skipBlank src e
    match at? src m with
    | some 125 => pure (.choice n, m + 1)
    | some _ => lifted (fail src m .expectedValue)
    | none => lifted (fail src m .eofObject)
  | some 34 => (fun (n, k) => (Datum.choice n, k)) <$> variantName src names j
  | some _ => lifted (failPeek src j .expectedValue)
  | none => lifted (failPeek src j .eofValue)

/-- Reads a size at `i`, blanks first. -/
def readSize (src : Src) (i : Nat) : Except SchemaFault (Datum × Nat) :=
  let j := skipBlank src i
  let visit (r : Except JsonError (JsonNumber × Nat)) : Except SchemaFault (Datum × Nat) :=
    match r with
    | .error e => .error (.placed e)
    | .ok (.int n, k) =>
      if n < 0 then placeAt src k ("invalid value: " ++ (Found.signed n).describe ++ ", expected usize")
      else .ok (.size n.toNat, k)
    | .ok (n, k) => placeAt src k (invalidType (Found.ofNumber n) "usize")
  match at? src j with
  | none => lifted (failPeek src j .eofValue)
  | some 45 => visit (number src (j + 1) false)
  | some b => if isDigitByte b then visit (number src j true) else wrongType src j "usize"

/-- Reads a boolean at `i`, blanks first. -/
def readFlag (src : Src) (i : Nat) : Except SchemaFault (Datum × Nat) :=
  let j := skipBlank src i
  match at? src j with
  | none => lifted (failPeek src j .eofValue)
  | some 116 => lifted ((fun (_, k) => (Datum.flag true, k)) <$> ident src (j + 1) "rue".toUTF8.toList)
  | some 102 => lifted ((fun (_, k) => (Datum.flag false, k)) <$> ident src (j + 1) "alse".toUTF8.toList)
  | some _ => wrongType src j "a boolean"

/-- Reads a string at `i`, blanks first. -/
def readText (src : Src) (i : Nat) : Except SchemaFault (Datum × Nat) :=
  let j := skipBlank src i
  match at? src j with
  | none => lifted (failPeek src j .eofValue)
  | some 34 => lifted ((fun (s, k) => (Datum.text s, k)) <$> string src (j + 1) [])
  | some _ => wrongType src j "a string"

/-- Where the next value of a list stands, from `i`: `none` at the closing bracket, which is
left in place. `first` says whether no value has been read yet. -/
def nextInList (src : Src) (first : Bool) (i : Nat) : Except SchemaFault (Option Nat) :=
  let j := skipBlank src i
  let value (k : Nat) : Except SchemaFault (Option Nat) :=
    match at? src k with
    | some 93 => lifted (failPeek src k .trailingComma)
    | some _ => .ok (some k)
    | none => lifted (failPeek src k .eofValue)
  match at? src j with
  | some 93 => .ok none
  | some 44 => if first then value j else value (skipBlank src (j + 1))
  | some _ => if first then value j else lifted (failPeek src j .expectedListCommaOrEnd)
  | none => lifted (failPeek src j .eofList)

/-- Where the next member's key stands, from `i`: `none` at the closing brace, which is left
in place; otherwise the key and the index after it. -/
def nextInObject (src : Src) (first : Bool) (i : Nat) : Except SchemaFault (Option (String × Nat)) :=
  let j := skipBlank src i
  let key (k : Nat) : Except SchemaFault (Option (String × Nat)) :=
    match at? src k with
    | some 34 => lifted ((fun (s, l) => some (s, l)) <$> string src (k + 1) [])
    | some 125 => lifted (failPeek src k .trailingComma)
    | some _ => lifted (failPeek src k .keyMustBeString)
    | none => lifted (failPeek src k .eofValue)
  match at? src j with
  | some 125 => .ok none
  | some 44 => if first then key j else key (skipBlank src (j + 1))
  | some _ => if first then key j else lifted (failPeek src j .expectedObjectCommaOrEnd)
  | none => lifted (failPeek src j .eofObject)

/-- The value of a field no member gave, or the fault of its absence. -/
def missing (index : Nat) : String × Schema × Option Datum → Except SchemaFault Datum
  | (_, _, some d) => .ok d
  | (_, .optional _, none) => .ok .absent
  | (name, _, none) => .error (.pending ("missing field `" ++ name ++ "`") index)

/-- The fields of a record once its object has ended at `index`. -/
def gather (index : Nat) : List (String × Schema × Option Datum) → List (Option Datum) →
    Except SchemaFault (List Datum)
  | [], _ => .ok []
  | field :: fields, given :: rest => do
    let d ← match given with
      | some d => pure d
      | none => missing index field
    return d :: (← gather index fields rest)
  | field :: fields, [] => do
    let d ← missing index field
    return d :: (← gather index fields [])

/-- Replaces the entry at a position. -/
def setAt {α : Type} : List α → Nat → α → List α
  | [], _, _ => []
  | _ :: xs, 0, a => a :: xs
  | x :: xs, n + 1, a => x :: setAt xs n a

mutual

/-- Reads a value of a schema at `i`, blanks first. -/
def readAt (src : Src) (fuel : Nat) (schema : Schema) (i : Nat) : Except SchemaFault (Datum × Nat) :=
  match fuel with
  | 0 => lifted (fail src i .recursionLimit)
  | fuel + 1 =>
    match schema with
    | .text => readText src i
    | .size => readSize src i
    | .flag => readFlag src i
    | .choice names => readChoice src names i
    | .optional inner =>
      let j := skipBlank src i
      match at? src j with
      | some 110 => lifted ((fun (_, k) => (Datum.absent, k)) <$> ident src (j + 1) "ull".toUTF8.toList)
      | _ => (fun (d, k) => (Datum.present d, k)) <$> readAt src fuel inner i
    | .list item =>
      let j := skipBlank src i
      match at? src j with
      | none => lifted (failPeek src j .eofValue)
      | some 91 =>
        match readItems src fuel item true [] (j + 1) with
        | .error f => .error f
        | .ok (items, k) =>
          match closeList src k with
          | (l, none) => .ok (.list items, l)
          | (_, some e) => .error (.placed e)
      | some _ => wrongType src j ("a sequence")
    | .record name fields =>
      let j := skipBlank src i
      match at? src j with
      | none => lifted (failPeek src j .eofValue)
      | some 91 =>
        closeRecord src closeList (readInOrder src fuel name fields.length 0 fields true [] (j + 1))
      | some 123 =>
        closeRecord src closeObject
          (readMembers src fuel fields true (fields.map fun _ => none) (j + 1))
      | some _ => wrongType src j ("struct " ++ name)

/-- Reads the values of a list up to its closing bracket, which is left in place. -/
def readItems (src : Src) (fuel : Nat) (item : Schema) (first : Bool) (acc : List Datum)
    (i : Nat) : Except SchemaFault (List Datum × Nat) :=
  match fuel with
  | 0 => lifted (fail src i .recursionLimit)
  | fuel + 1 => do
    match ← nextInList src first i with
    | none => pure (acc.reverse, skipBlank src i)
    | some k =>
      let (d, l) ← readAt src fuel item k
      readItems src fuel item false (d :: acc) l

/-- Reads a record's fields in order from a list; `count` fields in all, `done` read so far. -/
def readInOrder (src : Src) (fuel : Nat) (name : String) (count done : Nat)
    (fields : List (String × Schema × Option Datum)) (first : Bool) (acc : List Datum) (i : Nat) :
    Except SchemaFault (List Datum × Nat) :=
  match fuel with
  | 0 => lifted (fail src i .recursionLimit)
  | fuel + 1 =>
    match fields with
    | [] => .ok (acc.reverse, i)
    | (_, schema, default) :: rest => do
      match ← nextInList src first i with
      | some k =>
        let (d, l) ← readAt src fuel schema k
        readInOrder src fuel name count (done + 1) rest false (d :: acc) l
      | none =>
        let j := skipBlank src i
        match default with
        | some d => readInOrder src fuel name count (done + 1) rest first (d :: acc) j
        | none => .error (.pending ("invalid length " ++ toString done ++ ", expected struct " ++
            name ++ " with " ++ toString count ++ " elements") j)

/-- Reads a record's members up to its closing brace, which is left in place; `given` holds
what each field has been given so far. -/
def readMembers (src : Src) (fuel : Nat) (fields : List (String × Schema × Option Datum))
    (first : Bool) (given : List (Option Datum)) (i : Nat) : Except SchemaFault (List Datum × Nat) :=
  match fuel with
  | 0 => lifted (fail src i .recursionLimit)
  | fuel + 1 => do
    match ← nextInObject src first i with
    | none =>
      let j := skipBlank src i
      let ds ← gather j fields given
      pure (ds, j)
    | some (key, k) =>
      match indexOf (fields.map (·.1)) key with
      | some n =>
        if (given.getD n none).isSome then
          .error (.pending ("duplicate field `" ++ key ++ "`") k)
        else
          let c ← colon src k
          let (d, l) ← readAt src fuel ((fields.getD n default).2.1) c
          readMembers src fuel fields false (setAt given n (some d)) l
      | none =>
        let c ← colon src k
        let l ← lifted (skipValue src c)
        readMembers src fuel fields false given l

end

end JsonReader

/-- Reads a whole text against a schema: blanks may surround the value and nothing else may
follow it. -/
def Schema.read (schema : Schema) (text : String) : Except JsonError Datum :=
  let src := text.toUTF8.data
  match JsonReader.readAt src (4 * src.size + 16) schema 0 with
  | .error (.placed e) => .error e
  | .error (.pending message index) => .error (JsonReader.errorAt src index (.custom message))
  | .ok (d, i) =>
    let j := JsonReader.skipBlank src i
    if j < src.size then .error (JsonReader.errorAt src (j + 1) .trailingCharacters)
    else .ok d

end ColumnDb
