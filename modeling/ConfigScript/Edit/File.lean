import ConfigScript.Edit.Change
import ConfigScript.Operation

/-!
# Editing a configuration file

The changes of `ConfigScript.Edit` applied to a file of an environment. A write replaces the file as a
whole or fails, but nothing takes it back if a later step fails.
-/

namespace ConfigScript.Edit

open OperationOn

/-- The source text and the statements of the file at `path`. -/
def loadFile (env : Environment) (path : Path) : Except ConfigError (List Char × List Stmt) := do
  let source ← (env.readText path).mapError .io
  let body ← (Script.parse source).mapError fun e => .script (e.inFile path)
  return (source, body)

/-- Loaded files are entries that cannot be edited. -/
def requireEditable (kind : EntryKind) : Except ConfigError Unit :=
  if kind = .inclusion then .error .inclusionEdited else .ok ()

/-- Whether the file at `path` defines an entry anywhere. -/
def fileDefines (env : Environment) (path : Path) (kind : EntryKind) (name : String) :
    Except ConfigError Bool := do
  requireEditable kind
  let (_, body) ← loadFile env path
  return !(Occurrence.all kind name body).isEmpty

/-- Write a new text to a file. -/
def writeText (env : Environment) (path : Path) (text : List Char) :
    Except ConfigError Environment :=
  (env.write path (.text text)).mapError .io

/-- Replace the text of a file. -/
def writeFile (path : Path) (text : List Char) : FileOperation Unit :=
  attempt fun env => writeText env path text

/-- Put the value of an entry into the text of the file at `path`. The answer says whether the file
changed. -/
def updateText (path : Path) (kind : EntryKind) (name : String) (value : List Char) (o : Options) :
    FileOperation Bool := do
  let (source, body) ← inspect fun env => loadFile env path
  let updated ← ofExcept (set o (String.ofList path.displayName) kind name value source body)
  if updated = source then return false
  writeFile path updated
  return true

/-- Set an entry of the file at `path`, if it may be set. The answer says whether the file changed. -/
def update (path : Path) (kind : EntryKind) (name : String) (value : List Char) (o : Options) :
    FileOperation Bool := do
  ofExcept (requireEditable kind)
  if kind = .var && !isVariableName name.toList then throw (.variableName name)
  updateText path kind name value o

/-- Cut the statements of occurrences out of a text, one after the other. -/
def cutEach (kind : EntryKind) (name : String) :
    List Occurrence → List Char → FileOperation (List Char)
  | [], text => return text
  | found :: rest, text =>
    match found.statement with
    | some s => cutEach kind name rest (cut text s)
    | none => throw (.sharedDeclaration kind name)

/-- Remove an entry from the file at `path`. The answer says whether it was there. -/
def remove (path : Path) (kind : EntryKind) (name : String) : FileOperation Bool := do
  ofExcept (requireEditable kind)
  let (source, body) ← inspect fun env => loadFile env path
  let found := Occurrence.all kind name body
  if found.isEmpty then return false
  -- From the end on, so that the places of what is still to be cut out stay the same.
  let updated ← cutEach kind name found.reverse source
  writeFile path updated
  return true

/-- What `update` does in an environment. -/
def setInFile (env : Environment) (path : Path) (kind : EntryKind) (name : String)
    (value : List Char) (o : Options) : Except ConfigError Bool × Environment :=
  (update path kind name value o).outcome env

/-- What `remove` does in an environment. -/
def removeFromFile (env : Environment) (path : Path) (kind : EntryKind) (name : String) :
    Except ConfigError Bool × Environment :=
  (remove path kind name).outcome env

end ConfigScript.Edit
