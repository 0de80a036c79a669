/-!
# Files

How reading a file can fail, and a working directory whose files are given.
-/

namespace StuffScript

/-- Why a file cannot be read. -/
inductive FileError where
  | missing
  | isDirectory
  | notDirectory
  | invalid
  | nameTooLong
  | other (reason : String)
deriving DecidableEq, Repr

/-- The text of the error for a path. A directory can be opened but not read. -/
def FileError.text (path : String) : FileError → String
  | missing => "open " ++ path ++ ": no such file or directory"
  | isDirectory => "read " ++ path ++ ": is a directory"
  | notDirectory => "open " ++ path ++ ": not a directory"
  | invalid => "open " ++ path ++ ": invalid argument"
  | nameTooLong => "open " ++ path ++ ": file name too long"
  | other reason => "open " ++ path ++ ": " ++ reason

/-- What reading a file gives. -/
abbrev FileResult := Except FileError ByteArray

/-- The files of a working directory, each under the parts of its path. -/
structure Files where
  entries : List (List String × ByteArray)

namespace Files

/-- Files by their paths. -/
def ofList (files : List (String × ByteArray)) : Files :=
  ⟨files.map fun f => ((f.1.splitOn "/").filter fun p => p ≠ "" && p ≠ ".", f.2)⟩

/-- Where a path has led: to a directory or a file of the working directory, or out of it. -/
inductive Place where
  | directory (parts : List String)
  | file (bytes : ByteArray)
  | outside

/-- Follow a name in a directory. -/
def enter (fs : Files) (parts : List String) (name : String) : Except FileError Place :=
  let parts := parts ++ [name]
  match fs.entries.find? fun e => e.1 = parts with
  | some e => .ok (.file e.2)
  | none =>
    if fs.entries.any fun e => parts.isPrefixOf e.1 then .ok (.directory parts)
    else if 255 < name.utf8ByteSize then .error .nameTooLong
    else .error .missing

/-- Follow the parts of a path. -/
def follow (fs : Files) : Place → List String → Except FileError Place
  | place, [] => .ok place
  | .file _, _ :: _ => .error .notDirectory
  | .outside, name :: rest =>
    if name = "" || name = "." || name = ".." then follow fs .outside rest else .error .missing
  | .directory parts, name :: rest =>
    if name = "" || name = "." then follow fs (.directory parts) rest
    else if name = ".." then
      if parts.isEmpty then follow fs .outside rest else follow fs (.directory parts.dropLast) rest
    else
      match fs.enter parts name with
      | .ok place => follow fs place rest
      | .error e => .error e

/-- Read a file. -/
def read (fs : Files) (path : String) : FileResult :=
  if path.isEmpty then .error .missing
  else if path.toList.contains '\x00' then .error .invalid
  else
    let start := if path.startsWith "/" then Place.outside else .directory []
    match fs.follow start (path.splitOn "/") with
    | .ok (.file bytes) => .ok bytes
    | .ok _ => .error .isDirectory
    | .error e => .error e

end Files

end StuffScript
