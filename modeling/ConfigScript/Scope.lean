import ConfigScript.Assoc
import ConfigScript.Path
import ConfigScript.Value

/-!
# Scopes

The global state that a script runs against: constants, variables and the files it loaded. A
constant keeps the value it got first. A snapshot remembers what a scope holds, so that what was
added later can be told.
-/

namespace ConfigScript

/-- Namespaces of what a script defines. -/
inductive EntryKind where
  | const
  | var
  | inclusion
deriving DecidableEq, Repr

/-- The name of a namespace. -/
def EntryKind.toText : EntryKind → String
  | const => "constant"
  | var => "variable"
  | inclusion => "includes"

/-- Something that a script defines. -/
structure Entry where
  kind : EntryKind
  name : String
  value : Value
deriving Repr

/-- Values with their names, in the order in which they came. -/
abbrev Bindings := List (String × Value)

/-- The global state of a script. -/
structure Scope where
  constants : Bindings
  vars : Bindings
  loaded : List Path
deriving Repr

/-- What a scope held at some time. -/
structure Snapshot where
  constants : List String
  vars : List String
  loaded : List Path
deriving Repr

namespace Scope

/-- A scope that holds nothing. -/
def empty : Scope := ⟨[], [], []⟩

instance : Inhabited Scope := ⟨empty⟩

/-- The value of a constant. -/
def constant? (s : Scope) (name : String) : Option Value := Assoc.lookup name s.constants

/-- The value of a variable. -/
def var? (s : Scope) (name : String) : Option Value := Assoc.lookup name s.vars

/-- Define a constant. A constant that is defined already keeps its value; the answer says whether
it was new. -/
def define (s : Scope) (name : String) (value : Value) : Bool × Scope :=
  if Assoc.contains name s.constants then (false, s)
  else (true, { s with constants := Assoc.insert name value s.constants })

/-- Give a variable a value. -/
def setVariable (s : Scope) (name : String) (value : Value) : Scope :=
  { s with vars := Assoc.insert name value s.vars }

/-- Drop a variable. -/
def unsetVariable (s : Scope) (name : String) : Scope :=
  { s with vars := Assoc.erase name s.vars }

/-- Whether a file was loaded. -/
def isLoaded (s : Scope) (path : Path) : Bool := s.loaded.any path.same

/-- Note that a file is loaded. -/
def markLoaded (s : Scope) (path : Path) : Scope :=
  if s.isLoaded path then s else { s with loaded := s.loaded ++ [path] }

/-- What the scope holds now. -/
def snapshot (s : Scope) : Snapshot := ⟨Assoc.keys s.constants, Assoc.keys s.vars, s.loaded⟩

/-- The constants that every script may rely on. -/
def builtins : Bindings :=
  [("PHP_EOL", .string "\n"), ("PHP_VERSION", .string "8.2.0"),
    ("DIRECTORY_SEPARATOR", .string "/"), ("E_ALL", .int 32767)]

/-- The scope in which a script starts. -/
def withBuiltins : Scope := { empty with constants := builtins }

end Scope

namespace Snapshot

/-- Whether there was a constant of that name. -/
def hasConstant (s : Snapshot) (name : String) : Bool := s.constants.contains name

/-- Whether there was a variable of that name. -/
def hasVariable (s : Snapshot) (name : String) : Bool := s.vars.contains name

/-- Whether the file was loaded. -/
def hasLoaded (s : Snapshot) (path : Path) : Bool := s.loaded.any path.same

/-- The entry for a loaded file. -/
def inclusion (path : Path) : Entry :=
  ⟨.inclusion, String.ofList path.displayName, .string path.toString⟩

/-- What `after` holds beyond the snapshot: variables, then constants, then loaded files, each in
the order in which they came. -/
def diff (before : Snapshot) (after : Scope) : List Entry :=
  let vars := after.vars.filter fun (name, _) => !before.hasVariable name
  let constants := after.constants.filter fun (name, _) => !before.hasConstant name
  let loaded := after.loaded.filter fun path => !before.hasLoaded path
  vars.map (fun (name, value) => ⟨.var, name, value⟩) ++
    constants.map (fun (name, value) => ⟨.const, name, value⟩) ++ loaded.map inclusion

end Snapshot

end ConfigScript
