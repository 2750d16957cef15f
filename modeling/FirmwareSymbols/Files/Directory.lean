/-!
# Finding files by their paths

A path leads from name to name through directories to a file. It is
followed from left to right and ends at the first name that leads nowhere,
so that name decides why the path leads to no file.

Only the directory in which a run takes place is known, with what is in it.
The directories around it exist, but nothing is known to be there.

## Main definitions

* `Files.Obstacle`: why a file cannot be read.
* `Files.Directory`: the files in a directory and below it.
* `Files.Directory.read`: what the file at the end of a path holds.
-/

namespace FirmwareSymbols

namespace Files

/-- Why a file cannot be read. -/
inductive Obstacle where
  /-- Nothing has the name. -/
  | missing
  /-- What should be a directory is a file. -/
  | notDirectory
  /-- What should be a file is a directory. -/
  | isDirectory
  /-- A name or a path is longer than is allowed. -/
  | tooLong
  /-- Null characters end a path and cannot be part of it. -/
  | containsNull
  /-- Any other reason, in the words of the operating system. -/
  | other (reason : String)
deriving DecidableEq, Repr

/-- Why a file cannot be read as a text, in the words of the operating system. -/
def Obstacle.reason : Obstacle → String
  | missing => "No such file or directory (os error 2)"
  | notDirectory => "Not a directory (os error 20)"
  | isDirectory => "Is a directory (os error 21)"
  | tooLong => "File name too long (os error 36)"
  | containsNull => "file name contained an unexpected NUL byte"
  | other reason => reason

/-- The files in a directory and below it, with the names that lead to them. -/
structure Directory where
  files : List (List String × Array UInt8)

/-- Where a path has led. -/
inductive Place where
  /-- A directory below the known one, or that one. -/
  | directory (names : List String)
  /-- A directory around the known one. -/
  | outside
  /-- A file. -/
  | file (contents : Array UInt8)
deriving Repr

/-- Bytes that a name in a path may have. -/
def maxName : Nat := 255

/-- Bytes that a path may have. -/
def maxPath : Nat := 4095

/-- The names in a path. Repeated slashes separate as one does, and a slash at the end asks for a directory
as a dot behind it would. -/
def names (path : String) : List String :=
  (path.splitOn "/").filter (!·.isEmpty) ++ if path.back = '/' then ["."] else []

namespace Directory

/-- What has a name in the directory or below it. -/
def find? (directory : Directory) (names : List String) : Option Place :=
  match directory.files.lookup names with
  | some contents => some (.file contents)
  | none =>
    if directory.files.any fun (longer, _) => names.isPrefixOf longer then some (.directory names)
    else none

/-- Goes from a place to what has a name there. -/
def step (directory : Directory) (place : Place) (name : String) : Except Obstacle Place :=
  match place with
  | .file _ => .error .notDirectory
  | .outside => if name = "." || name = ".." then .ok .outside else .error .missing
  | .directory names =>
    if name = "." then .ok (.directory names)
    else if name = ".." then .ok (if names.isEmpty then .outside else .directory names.dropLast)
    else if maxName < name.utf8ByteSize then .error .tooLong
    else
      match directory.find? (names ++ [name]) with
      | some place => .ok place
      | none => .error .missing

/-- Follows a path from a place. -/
def follow (directory : Directory) (place : Place) (names : List String) : Except Obstacle Place :=
  names.foldlM directory.step place

/-- What the file at the end of a path holds. -/
def read (directory : Directory) (path : String) : Except Obstacle (Array UInt8) := do
  if path.contains '\x00' then throw .containsNull
  if path.isEmpty then throw .missing
  if maxPath < path.utf8ByteSize then throw .tooLong
  let start := if path.front = '/' then .outside else .directory []
  match ← directory.follow start (names path) with
  | .file contents => return contents
  | .directory _ | .outside => throw .isDirectory

end Directory

end Files

end FirmwareSymbols
