/-!
# Paths

A path is text with `/` between its parts. Joining a part onto a path puts
one separator between them unless the path is empty or already ends in one;
a part that starts with `/` replaces the path. Two spellings name the same
file when they agree after dropping empty and `.` parts and letting each
`..` cancel the part before it (`./data/x`, `data/x` and `data/y/../x`),
which is the key a disk files things under. A `..` at the start of a
relative path stays; one at the root of an absolute path is dropped.
-/

namespace ColumnDb.Disk

/-- Joins a part onto a path. -/
def joinPath (base part : String) : String :=
  if part.startsWith "/" then part
  else if base.isEmpty then part
  else if base.endsWith "/" then base ++ part
  else base ++ "/" ++ part

/-- The parts of a text between its slashes, empty ones included. -/
def slashParts (p : String) : List String :=
  go p.toList []
where
  /-- Splits the rest of a text, holding the characters of the current part innermost first. -/
  go : List Char → List Char → List String
    | [], part => [String.ofList part.reverse]
    | c :: cs, part => if c == '/' then String.ofList part.reverse :: go cs [] else go cs (c :: part)

/-- The parts of a path as written, without empty and `.` parts. -/
def writtenParts (p : String) : List String :=
  (slashParts p).filter fun s => !s.isEmpty && s != "."

/-- Steps into one written part from resolved parts kept innermost first: `..` leaves the
innermost part, when there is one to leave. -/
def stepInto (absolute : Bool) (inner : List String) (part : String) : List String :=
  if part == ".." then
    match inner with
    | q :: rest => if q == ".." then ".." :: inner else rest
    | [] => if absolute then [] else [".."]
  else part :: inner

/-- The resolved parts of a path; an absolute path keeps a leading empty part. -/
def pathParts (p : String) : List String :=
  let absolute := p.startsWith "/"
  let parts := ((writtenParts p).foldl (stepInto absolute) []).reverse
  if absolute then "" :: parts else parts

/-- The key under which a disk files a path. -/
def pathKey (p : String) : String := "/".intercalate (pathParts p)

/-- The key of the directory holding a path. -/
def parentKey (p : String) : String := "/".intercalate (pathParts p).dropLast

/-- The keys of the directories met while walking down written parts from the start of a path:
after each part, the directory reached, unless it lies above the start. -/
def dirsAlong (absolute : Bool) (parts : List String) : List String :=
  let lead := if absolute then [""] else []
  let walk := parts.foldl (fun (acc : List String × List (List String)) part =>
    let inner := stepInto absolute acc.1 part
    (inner, acc.2 ++ [inner])) ([], [])
  walk.2.filterMap fun inner =>
    match inner with
    | [] => none
    | q :: _ => if q == ".." then none else some ("/".intercalate (lead ++ inner.reverse))

/-- The keys of the directories met while walking down to a directory, itself last:
`data/store/..` meets `data` and `data/store`, then `data` again. -/
def walkedDirs (p : String) : List String := dirsAlong (p.startsWith "/") (writtenParts p)

/-- The keys of the directories met while walking down to the directory holding a path. -/
def parentDirs (p : String) : List String := dirsAlong (p.startsWith "/") (writtenParts p).dropLast

/-- Why the file system refuses a path, if it does: a NUL character anywhere, a part longer
than 255 bytes, or a whole path of 4096 bytes or more. -/
def pathFault? (p : String) : Option String :=
  if p.toList.contains (Char.ofNat 0) then some "file name contained an unexpected NUL byte"
  else if p.utf8ByteSize ≥ 4096 || (slashParts p).any (·.utf8ByteSize > 255) then
    some "File name too long (os error 36)"
  else none

end ColumnDb.Disk
