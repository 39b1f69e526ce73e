import ConfigScript.CommandLine.Invocation
import ConfigScript.Discovery
import ConfigScript.Run.Statement

/-!
# What a run may ask about

A run sees a machine that is data, so whoever starts it has to know beforehand which files and
environment variables it may ask about. These are the configuration file and what the scripts
mention. A script mentions the texts of its literals: each may name a variable, and may be a path,
or a piece of one, below a directory that is known.

A survey keeps the directories and mentions that are known. Taking in more of them yields the paths
that become possible, so that no path is yielded by one directory and one mention twice.
-/

namespace ConfigScript.CommandLine

/-- The place of a path, followed from the working directory by its components alone. -/
def placeOf (workingDirectory : List (List Char)) (path : Path) : List (List Char) :=
  path.components.foldl
    (fun place component =>
      match component with
      | .root => []
      | .current => place
      | .parent => place.dropLast
      | .name n => place ++ [n])
    workingDirectory

/-- Whether what stands at a place may be read whole. Devices are kept apart in directories of their
own, and some of them can be read without end. -/
def isReadable (place : List (List Char)) : Bool :=
  !([some "dev".toList, some "proc".toList, some "sys".toList].contains place.head?)

/-- The directories and mentions that are known. Directories have no detours in their paths. -/
structure Survey where
  directories : List Path
  mentions : List String

namespace Survey

/-- The texts in the literals of a token. -/
def textsOfToken (t : Token) : List String :=
  match t.kind with
  | .str parts => parts.filterMap fun
    | .text s => some s
    | .var _ => none
  | _ => []

/-- What a file mentions. The bootstrap file is never run, so its content does not matter. -/
def mentionsOf (file : Path) : Content → List String
  | .binary _ => []
  | .text source =>
    if file.fileName? == some bootstrapName then []
    else match Script.tokenize source with
      | .ok tokens => (tokens.flatMap textsOfToken).filter fun s => !s.isEmpty && !s.contains '\x00'
      | .error _ => []

/-- The paths that a mention may stand for when a directory is known. -/
def pathsIn (directory : Path) (mention : String) : List Path :=
  let below := directory.join ⟨'.' :: '/' :: mention.toList⟩
  if (Path.ofString mention).isAbsolute then [.ofString mention, below] else [below]

/-- Take in directories and mentions. The paths are those that become possible. -/
def extend (s : Survey) (directories : List Path) (mentions : List String) : Survey × List Path :=
  let newDirectories := directories.filter fun d => !s.directories.contains d
  let newMentions := mentions.filter fun m => !s.mentions.contains m
  let after : Survey := ⟨s.directories ++ newDirectories, s.mentions ++ newMentions⟩
  (after, newDirectories.flatMap (fun d => after.mentions.flatMap (pathsIn d)) ++
    s.directories.flatMap fun d => newMentions.flatMap (pathsIn d))

/-- Take in what was found at a place. -/
def extendFound (s : Survey) (place : List (List Char)) : FileTree → Survey × List Path
  | .directory _ => s.extend [Environment.pathOf place] []
  | .file content =>
    let path := Environment.pathOf place
    s.extend (path.ancestors.drop 1) (mentionsOf path content)

end Survey

/-! ### Recording what is there -/

/-- Make sure that there is a directory at a place. -/
def recordDirectory (files : FileTree) (place : List (List Char)) : FileTree :=
  if (files.get? place).isSome then files else files.put place (.directory [])

/-- Record what was found at a path, together with the directories on the way. -/
def record (env : Environment) (path : Path) (found : FileTree) : Environment :=
  let places := path.ancestors.map (placeOf env.workingDirectory)
  let files := (places.drop 1).foldl recordDirectory env.files
  let place := placeOf env.workingDirectory path
  { env with files := if found.isFile then files.put place found else recordDirectory files place }

/-! ### The first questions -/

/-- The environment variables that the program itself asks for. -/
def usualVariables : List String := ["WPCONFIG_FILE", "VISUAL", "EDITOR"]

namespace Invocation

/-- Whether the input is read. -/
def readsInput (i : Invocation) : Bool :=
  match i.command with
  | .create _ extra => extra
  | _ => false

/-- Where the configuration file may be: at the path that is named, or with its usual name in the
working directory or above it. -/
def places (i : Invocation) (workingDirectory : Path) : List Path :=
  match i.file with
  | some path => path.ancestors
  | none => workingDirectory.ancestors.map (·.join Discovery.fileName)

end Invocation

end ConfigScript.CommandLine
