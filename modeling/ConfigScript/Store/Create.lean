import ConfigScript.Store.Basic
import ConfigScript.Template

/-!
# Making a new configuration file

A new file is the template with fresh salts, into which the settings are then written like later
changes. If that fails, the file is removed again.
-/

namespace ConfigScript

/-- The settings of a new file. -/
structure CreateOptions where
  dbname : String
  dbuser : String
  dbpass : String
  dbhost : String
  dbprefix : String
  dbcharset : String
  dbcollate : String
  locale : String
  /-- Source text that is put in front of the marker for new entries. -/
  extra : List Char
  skipSalts : Bool
  /-- An existing file is replaced. -/
  force : Bool
  /-- The connection to the salt service need not be verified. -/
  insecure : Bool
deriving Repr

/-- The usual settings. -/
def CreateOptions.standard : CreateOptions where
  dbname := ""
  dbuser := ""
  dbpass := ""
  dbhost := "localhost"
  dbprefix := "wp_"
  dbcharset := "utf8"
  dbcollate := ""
  locale := ""
  extra := []
  skipSalts := false
  force := false
  insecure := false

/-- Whether table names may begin with the text. -/
def isDatabasePrefix (cs : List Char) : Bool :=
  !cs.isEmpty && cs.all fun c => c == '_' || c.isAlphanum

/-- The entries that settings are written to. Empty settings leave the file as it is. -/
def CreateOptions.settings (o : CreateOptions) : List (EntryKind × String × String) :=
  [(.const, "DB_HOST", o.dbhost), (.const, "DB_PASSWORD", o.dbpass),
    (.var, "table_prefix", o.dbprefix), (.const, "DB_CHARSET", o.dbcharset),
    (.const, "DB_COLLATE", o.dbcollate), (.const, "WPLANG", o.locale),
    (.const, "DB_NAME", o.dbname), (.const, "DB_USER", o.dbuser)].filter fun (_, _, v) => v != ""

namespace Store

/-- The salts of a new file: drawn here, or else the service's. -/
def newSalts (o : CreateOptions) : Operation (List (String × String)) := do
  if o.skipSalts then return []
  else match ← Operation.drawKeys (Salt.freshNames true) with
    | some keys => return keys
    | none => Operation.fetchSalts o.insecure

/-- Write settings to the file. -/
def applySettings (s : Store) : List (EntryKind × String × String) → Operation Unit
  | [] => return ()
  | (kind, name, value) :: rest => do
    let _ ← Operation.change fun env =>
      Edit.setInFile env s.path kind name value.toList .standard
    s.applySettings rest

/-- Remove the file, if that is possible. -/
def discard (s : Store) : Operation Unit :=
  modify fun m =>
    match m.environment.removeFile s.path with
    | .ok env => { m with environment := env }
    | .error _ => m

/-- Make a new file and open its store. -/
def create (path : Path) (reader : Reader) (o : CreateOptions) : Operation Store := do
  if !isDatabasePrefix o.dbprefix.toList then throw .databasePrefix
  if (← MonadState.get).environment.pathExists path && !o.force then throw (.fileExists path)
  let salts ← newSalts o
  Operation.change (Edit.writeFile path (Template.render salts o.extra)).outcome
  let s : Store := ⟨path, reader⟩
  -- From here on the file exists, so a failure has to remove it.
  tryCatch (s.applySettings o.settings) fun cause => do
    s.discard
    throw (.creation path cause)
  return s

end Store

end ConfigScript
