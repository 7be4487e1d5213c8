import ColumnDb.Collection.Query

/-!
# The query command

`gatherdb <database> <collection> [condition] [column...]` prints every row
of an existing collection that matches the condition, one JSON object per
line with the chosen columns (every column when none is chosen), and logs
how many rows matched. Settings come from the environment.

The command is a function of its arguments, its environment and the disk:
it answers an exit status, the lines it prints on standard output and the
lines it logs on standard error, and the disk as it leaves it. Like every
holder of a collection it disposes the collection when done, which flushes
the columns and writes the metadata again.

Rows are JSON objects with their columns in ascending name order: integers
exactly, floats in their shortest round-trip form at their own width (`null`
when not finite), text escaped.
-/

namespace ColumnDb

open ColumnDb.Disk ColumnDb.Float

/-- What the command leaves behind. -/
structure CliOutcome where
  status : Nat
  stdout : List String
  stderr : List String
deriving DecidableEq, Repr, Inhabited

/-- The usage line. -/
def usageLine : String := "usage: gatherdb <database> <collection> [condition] [column...]"

/-- The JSON of a value as the command prints it. -/
def Value.toJson : Value → Json
  | .bool b => .bool b
  | .int _ n => .int n
  | .float k bits => .num (.float k.format bits)
  | .text s => .str s

/-- The JSON text of a selected row. -/
def Row.render (row : Row) : String := (Json.obj (row.map fun (k, v) => (k, v.toJson))).render

/-- A log line at a level. -/
def logLine (level message : String) : String := level ++ " gatherdb: " ++ message

/-- Disposes the collection the command held, logging a failure. -/
def release (c : Collection) (d : Disk) : Disk × List String :=
  match Collection.dispose.run (d, c) with
  | .ok () (d, _) => (d, [])
  | .error e (d, _) =>
    (d, [logLine "WARN" ("failed to close collection collection=" ++ c.name ++ " error=" ++ e.message)])

/-- Runs the command. -/
def runCli (args : List String) (env : String → Option String) (d : Disk) : CliOutcome × Disk :=
  match args with
  | database :: name :: rest =>
    let condition := rest.headD ""
    let columns := rest.drop 1
    match Settings.ofLookup env with
    | .error e => (⟨1, [], [logLine "ERROR" ("Failed to load configuration: " ++ e.message)]⟩, d)
    | .ok s =>
      if !Collection.exists d database name s then
        (⟨1, [], [logLine "ERROR" ("Collection " ++ database ++ "/" ++ name ++ " does not exist")]⟩, d)
      else
        let failed (e : CollectionError) := logLine "ERROR" ("Query failed: " ++ e.message)
        match Collection.open d database name s with
        | (.error e, d) => (⟨1, [], [failed e]⟩, d)
        | (.ok c, d) =>
          let run : CollectionOp (List Row) := do
            let m ← Collection.query condition
            Collection.select m columns
          match run.run (d, c) with
          | .ok rows (d, c) =>
            let (d, warnings) := release c d
            (⟨0, rows.map Row.render,
              logLine "INFO" (toString rows.length ++ " rows matched") :: warnings⟩, d)
          | .error e (d, c) =>
            let (d, warnings) := release c d
            (⟨1, [], failed e :: warnings⟩, d)
  | _ => (⟨2, [], [usageLine]⟩, d)

end ColumnDb
