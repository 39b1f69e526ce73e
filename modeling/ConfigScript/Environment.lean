import ConfigScript.FileTree
import ConfigScript.Path
import ConfigScript.Text.Bytes
import ConfigScript.Text.Search

/-!
# The environment of a run

What a script and the programs around it see of the machine: files, the working directory and the
environment variables. All of it is data, so whatever depends on the environment says so.

A path is followed from left to right, and everything on the way must be a directory, also where the
path then turns back with `..`. Names and paths beyond a length lead nowhere.
-/

namespace ConfigScript

/-- Why an operation on files fails. -/
inductive IoFault where
  | notFound
  | notADirectory
  | isADirectory
  /-- What is to be replaced is a directory in use. -/
  | busy
  | nameTooLong
  | nulInPath
  /-- A file that should be text is not. -/
  | notText
deriving DecidableEq, Repr

/-- The wording of the fault. -/
def IoFault.message : IoFault → String
  | notFound => "No such file or directory (os error 2)"
  | notADirectory => "Not a directory (os error 20)"
  | isADirectory => "Is a directory (os error 21)"
  | busy => "Device or resource busy (os error 16)"
  | nameTooLong => "File name too long (os error 36)"
  | nulInPath => "file name contained an unexpected NUL byte"
  | notText => "stream did not contain valid UTF-8"

/-- What is seen of the machine. -/
structure Environment where
  files : FileTree
  /-- The place of the working directory. -/
  workingDirectory : List (List Char)
  exported : List (String × String)
deriving Inhabited

namespace Environment

/-! ### Following paths -/

/-- Whether a name has too many bytes for an entry of a directory. -/
def isNameTooLong (name : List Char) : Bool := 255 < Text.byteLength name

/-- Whether a path has too many bytes to be followed. -/
def isPathTooLong (path : Path) : Bool := 4095 < Text.byteLength path.text

/-- Whether a piece of a path stays at its place. -/
def isIdle (piece : List Char) : Bool := piece == [] || piece == ['.']

/-- Follow the pieces of a path from a place. -/
def follow (files : FileTree) (place : List (List Char)) :
    List (List Char) → Except IoFault (List (List Char))
  | [] => if (files.get? place).isSome then .ok place else .error .notFound
  | piece :: rest =>
    match files.get? place with
    | none => .error .notFound
    | some (.file _) => .error .notADirectory
    | some (.directory _) =>
      if isIdle piece then follow files place rest
      else if piece == ['.', '.'] then follow files place.dropLast rest
      else if isNameTooLong piece then .error .nameTooLong
      else follow files (place ++ [piece]) rest

/-- The place that some pieces of a path lead to. -/
def resolvePieces (env : Environment) (path : Path) (pieces : List (List Char)) :
    Except IoFault (List (List Char)) :=
  if path.text.isEmpty then .error .notFound
  else if path.text.contains '\x00' then .error .nulInPath
  else if isPathTooLong path then .error .nameTooLong
  else follow env.files (if path.isAbsolute then [] else env.workingDirectory) pieces

/-- The place that a path leads to. -/
def resolve (env : Environment) (path : Path) : Except IoFault (List (List Char)) :=
  env.resolvePieces path (Text.splitOn '/' path.text)

/-- The absolute path of a place. -/
def pathOf (place : List (List Char)) : Path :=
  if place.isEmpty then ⟨['/']⟩ else ⟨place.flatMap fun name => '/' :: name⟩

/-- The absolute path that `path` leads to, without detours. -/
def canonical (env : Environment) (path : Path) : Except IoFault Path :=
  (env.resolve path).map pathOf

/-- What a path leads to. -/
def find? (env : Environment) (path : Path) : Option FileTree :=
  match env.resolve path with
  | .ok place => env.files.get? place
  | .error _ => none

/-- Whether the path leads somewhere. -/
def pathExists (env : Environment) (path : Path) : Bool := (env.find? path).isSome

/-- Whether the path leads to a file. -/
def isFile (env : Environment) (path : Path) : Bool := (env.find? path).any FileTree.isFile

/-- Whether the path leads to a directory. -/
def isDirectory (env : Environment) (path : Path) : Bool :=
  (env.find? path).any fun t => !t.isFile

/-- The content of the file that the path leads to. -/
def read (env : Environment) (path : Path) : Except IoFault Content := do
  let place ← env.resolve path
  match env.files.get? place with
  | some (.file content) => return content
  | some (.directory _) => throw .isADirectory
  | none => throw .notFound

/-- The text of the file that the path leads to. -/
def readText (env : Environment) (path : Path) : Except IoFault (List Char) := do
  match ← env.read path with
  | .text cs => return cs
  | .binary _ => throw .notText

/-! ### Changing files -/

/-- The directory that a new file with this path is prepared in. -/
def directoryOf (path : Path) : Path :=
  match path.parent? with
  | some p => if p.text.isEmpty then .ofString "." else p
  | none => .ofString "."

/-- The pieces of a path in front of the last one, and the last one. Separators at the end do not
count; where nothing else stands, the last piece is empty. -/
def target (path : Path) : List (List Char) × List Char :=
  match (Text.splitOn '/' path.text).reverse.dropWhile (·.isEmpty) with
  | [] => ([], [])
  | last :: before => (before.reverse, last)

/-- Give the file at a path new content, or make it. It is prepared in the directory of the path and
then moved to its place, so both must be directories, and no directory is replaced by a file. -/
def write (env : Environment) (path : Path) (content : Content) : Except IoFault Environment := do
  let directory ← env.resolve (directoryOf path)
  if (env.files.get? directory).any FileTree.isFile then throw .notADirectory
  let (before, name) := target path
  let place ← env.resolvePieces path before
  match env.files.get? place with
  | some (.directory entries) =>
    -- Such a piece names a directory that is in use.
    if isIdle name || name == ['.', '.'] then throw .busy
    if isNameTooLong name then throw .nameTooLong
    if path.text.getLast? == some '/' then throw .notADirectory
    if (Assoc.lookup name entries).any fun t => !t.isFile then throw .isADirectory
    return { env with files := env.files.put (place ++ [name]) (.file content) }
  | _ => throw .notADirectory

/-- Drop the file at a path. -/
def removeFile (env : Environment) (path : Path) : Except IoFault Environment := do
  let place ← env.resolve path
  match env.files.get? place with
  | some (.file _) => return { env with files := env.files.erase place }
  | some (.directory _) => throw .isADirectory
  | none => throw .notFound

end Environment

end ConfigScript
