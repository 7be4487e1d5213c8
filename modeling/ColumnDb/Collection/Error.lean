import ColumnDb.Slot.Error
import ColumnDb.Query.Parse

/-!
# Collection faults

What a collection operation can refuse: a disposed collection, a row without
a key, a name that is not a column, a comparison on a column that keeps no
order, a value of the wrong kind, a literal that does not read as its
column's kind, a column declaration that cannot be understood, a metadata
text that does not read, or a fault of a column's files or of a condition.

Faults raised below the column level do not know the column's name; the
collection fills it in (`CollectionError.forColumn`).
-/

namespace ColumnDb

/-- A fault of a collection operation. -/
inductive CollectionError where
  | disposed (collection : String)
  | noKeyColumn
  | missingKeyValue (key : String)
  | unknownColumn (name : String)
  | notOrderable (name : String)
  | keyNotOrderable (name : String)
  | typeMismatch (column : String) (expected found : ValueKind)
  | invalidLiteral (kind : ValueKind) (literal : String)
  | invalidSchema (message : String)
  | io (message : String)
  /-- The metadata text or a declaration text does not read. -/
  | json (message : String)
  | file (e : FileError)
  | parse (e : Query.ParseError)
deriving DecidableEq

namespace CollectionError

/-- The message of a collection fault. -/
def message : CollectionError → String
  | disposed n => "collection " ++ n ++ " has been disposed"
  | noKeyColumn => "no orderable column has been declared as key"
  | missingKeyValue k => "row has no value for key column " ++ k
  | unknownColumn n => "unknown column: " ++ n
  | notOrderable n => n ++ " is unsized text and cannot be queried by comparison"
  | keyNotOrderable n => n ++ " is unsized text and cannot be used as key"
  | typeMismatch c e f => "column " ++ c ++ " holds " ++ e.name ++ ", got " ++ f.name
  | invalidLiteral k l => "'" ++ l ++ "' is not a valid " ++ k.name
  | invalidSchema m => "invalid column declaration: " ++ m
  | io m => "I/O error: " ++ m
  | json m => "metadata error: " ++ m
  | file e => e.message
  | parse e => e.message

/-- Names the column in a fault raised without one. -/
def forColumn (name : String) : CollectionError → CollectionError
  | typeMismatch c e f => if c.isEmpty then typeMismatch name e f else typeMismatch c e f
  | notOrderable c => if c.isEmpty then notOrderable name else notOrderable c
  | other => other

/-- The family a fault belongs to, as the program names it; a file fault is named by its
own family. -/
def kind : CollectionError → String
  | disposed _ => "Disposed"
  | noKeyColumn => "NoKeyColumn"
  | missingKeyValue _ => "MissingKeyValue"
  | unknownColumn _ => "UnknownColumn"
  | notOrderable _ => "NotOrderable"
  | keyNotOrderable _ => "KeyNotOrderable"
  | typeMismatch .. => "TypeMismatch"
  | invalidLiteral .. => "InvalidLiteral"
  | invalidSchema _ => "InvalidSchema"
  | io _ => "Io"
  | json _ => "Json"
  | file e => e.kind
  | parse _ => "Parse"

end CollectionError

end ColumnDb
