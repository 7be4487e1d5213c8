import ColumnDb.Json.Schema
import ColumnDb.Schema.Column

/-!
# Collection metadata

A collection records its columns in a side file, `collection.json`: the key
column's name (or `null`) and the declared columns in declaration order,
each with its name, its kind and, when not zero, its size. The file is
written pretty-printed, two spaces per level. Whether a column is the key
is not written per column; opening marks the column the `key` names.

Reading the file back accepts what was written and more (`Json.Schema`):
unknown members are ignored, a missing `key` means none, a column may carry
`size` and `key`, and a record may be a list of its fields in order. A text
that is no JSON, or JSON of another shape, is refused with a message naming
what was wrong and where.
-/

namespace ColumnDb


/-- The name of the metadata side file. -/
def metadataFile : String := "collection.json"

/-- The recorded schema of a collection. -/
structure Metadata where
  key : Option String
  columns : List ColumnDef
deriving DecidableEq, Repr, Inhabited

/-- The JSON of a column declaration: name, kind, and size when it is not zero. -/
def ColumnDef.toJson (c : ColumnDef) : Json :=
  .obj ([("name", .str c.name), ("type", .str c.kind.name)] ++
    (if c.size == 0 then [] else [("size", Json.int c.size)]))

namespace Metadata

/-- The JSON of the metadata. -/
def toJson (m : Metadata) : Json :=
  .obj [("key", match m.key with | some k => .str k | none => .null),
    ("columns", .arr (m.columns.map ColumnDef.toJson))]

/-- The text of the side file. -/
def render (m : Metadata) : String := m.toJson.pretty 0

/-- The canonical kind names a stored declaration may use, in the order of `ValueKind.all`. -/
def kindNames : List String := ValueKind.all.map ValueKind.name

/-- What a stored column declaration holds: a name, a kind, and optionally a size and
whether it asks to be the key. -/
def columnSchema : Schema :=
  .record "ColumnDef" [("name", .text, none), ("type", .choice kindNames, none),
    ("size", .size, some (.size 0)), ("key", .flag, some (.flag false))]

/-- What the side file holds: the key column's name, if any, and the column declarations. -/
def schema : Schema :=
  .record "CollectionMetadata" [("key", .optional .text, none), ("columns", .list columnSchema, none)]

/-- The column declaration of a value read against `columnSchema`. -/
def columnOfDatum : Datum → Option ColumnDef
  | .record [.text name, .choice k, .size size, .flag key] =>
    (ValueKind.all[k]?).map fun kind => { name, kind, size, key }
  | _ => none

/-- The metadata of a value read against `schema`. -/
def ofDatum : Datum → Option Metadata
  | .record [key, .list columns] => do
    let key ← match key with
      | .absent => some none
      | .present (.text k) => some (some k)
      | _ => none
    let columns ← columns.mapM columnOfDatum
    return { key, columns }
  | _ => none

/-- Reads the side file's text; a fault is the reader's message. -/
def read (text : String) : Except String Metadata :=
  match schema.read text with
  | .error e => .error e.message
  | .ok d => match ofDatum d with
    | some m => .ok m
    | none => .error "metadata of an unexpected shape"

end Metadata

end ColumnDb
