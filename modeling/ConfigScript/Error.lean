import ConfigScript.Environment
import ConfigScript.Scope
import ConfigScript.Script.Fault

/-!
# Errors

Why an operation on a configuration file fails, and the wording of each cause.
-/

namespace ConfigScript

/-- Why an operation on a configuration file fails. -/
inductive ConfigError where
  | io (fault : IoFault)
  | script (error : ScriptError)
  | configNotFound (path : Path)
  | entryNotFound (kind : Option EntryKind) (name file : String) (suggestion : Option String)
  /-- The entry does not exist and was not to be added. -/
  | notFoundWithoutAdd (kind : Option EntryKind) (name file : String)
  | ambiguous (name file : String)
  | fileExists (path : Path)
  | noRandomness (reason : String)
  | remoteService (reason : String)
  /-- Loaded files are no entries that can be edited. -/
  | inclusionEdited
  /-- The entry that was to be changed in place does not exist. -/
  | notDefined (kind : EntryKind) (name file : String)
  /-- The entry is one of several in one declaration. -/
  | sharedDeclaration (kind : EntryKind) (name : String)
  | anchorNotFound (marker file : String)
  | anchorEmpty
  | variableName (name : String)
  | databasePrefix
  | missingFilter
  | creation (path : Path) (cause : ConfigError)
deriving Repr

namespace ConfigError

/-- How a message names what was looked for. -/
def subject (kind : Option EntryKind) (name : String) : String :=
  match kind with
  | some kind => "The " ++ kind.toText ++ " '" ++ name ++ "'"
  | none => "The constant or variable '" ++ name ++ "'"

/-- The message that something is not defined. -/
def notDefinedMessage (kind : Option EntryKind) (name file : String) : String :=
  subject kind name ++ " is not defined in the '" ++ file ++ "' file."

/-- The wording of an error. -/
def message : ConfigError → String
  | io fault => "I/O error: " ++ fault.message
  | script error => error.message
  | configNotFound path => "'" ++ path.toString ++ "' does not exist."
  | entryNotFound kind name file none => notDefinedMessage kind name file
  | entryNotFound kind name file (some candidate) =>
    notDefinedMessage kind name file ++ "\nDid you mean '" ++ candidate ++ "'?"
  | notFoundWithoutAdd kind name file => notDefinedMessage kind name file
  | ambiguous name file =>
    "Found both a constant and a variable '" ++ name ++ "' in the '" ++ file ++
      "' file. Use --type=<type> to disambiguate."
  | fileExists path => "The '" ++ path.toString ++ "' file already exists."
  | noRandomness reason => "no secure source of randomness is available: " ++ reason
  | remoteService reason => "could not fetch salts from the remote service: " ++ reason
  | inclusionEdited => "Included files cannot be edited."
  | notDefined kind name file => notDefinedMessage (some kind) name file
  | sharedDeclaration kind name =>
    subject (some kind) name ++
      " is declared together with other constants and cannot be removed on its own."
  | anchorNotFound marker file =>
    "Could not locate the anchor '" ++ marker ++ "' in the '" ++ file ++ "' file."
  | anchorEmpty => "The anchor cannot be empty."
  | variableName name => "'" ++ name ++ "' is not a valid variable name."
  | databasePrefix => "The database prefix may only contain numbers, letters and underscores."
  | missingFilter => "The --strict option can only be used in combination with a filter."
  | creation path cause =>
    "Could not create new '" ++ path.toString ++ "' file.\nReason: " ++ cause.message

end ConfigError

end ConfigScript
