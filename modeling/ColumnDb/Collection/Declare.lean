import ColumnDb.Collection.Basic
import ColumnDb.Json.Read

/-!
# Declaring columns from JSON

Columns can be declared from a JSON object mapping column names to
`{"type": ..., "size": ..., "key": ...}`, optionally nested under the
collection's own name. Members are taken in ascending name order (a name
given twice counts once, with its last value), so a key column must be
marked. A member without a type name, or with an unknown one, is refused;
a size that is no unsigned integer counts as 0 and a key flag that is no
boolean as false. Declarations before a refused one stay declared.
-/

namespace ColumnDb

namespace Collection

/-- Reads one member of a declaration object. -/
def declarationOf (name : String) (spec : Json) : Except CollectionError ColumnDef := do
  let some typeName := (spec.get? "type").bind fun
      | .str s => some s
      | _ => none
    | throw (.invalidSchema (name ++ " has no type"))
  let kind ← match ValueKind.ofName? typeName with
    | .ok k => pure k
    | .error lower => throw (.invalidSchema (ValueKind.unknownMessage lower))
  let size := ((spec.get? "size").bind fun
      | .num n => n.asU64?
      | _ => none).getD 0
  let key := ((spec.get? "key").bind fun
      | .bool b => some b
      | _ => none).getD false
  return { name, kind, size, key }

/-- Declares the columns of a JSON declaration text, answering how many were new. -/
def declareJson (text : String) : CollectionOp Nat := do
  let root ← match Json.read text with
    | .ok j => pure j
    | .error e => throw (.json e.message)
  let root := match root.get? (← get).2.name with
    | some nested => nested
    | none => root
  let .obj _ := root | throw (.invalidSchema "expected a JSON object")
  let mut declared := 0
  for (name, spec) in root.fields do
    let d ← match declarationOf name spec with
      | .ok d => pure d
      | .error e => throw e
    ensureOpen
    let existed := ((← get).2.position d.name).isSome
    declareColumn d
    if !existed then declared := declared + 1
  return declared

end Collection

end ColumnDb
