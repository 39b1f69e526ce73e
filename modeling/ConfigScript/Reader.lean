import ConfigScript.Error
import ConfigScript.Run.Statement

/-!
# Reading the entries of a script

A script is run against a scope that holds what the host provides, and its entries are what the
scope holds afterwards beyond that.
-/

namespace ConfigScript

/-- Run a source text as the file `file`. What was done before an error stays done. -/
def Scope.executeSource (scope : Scope) (env : Environment) (source : List Char) (file : Path) :
    Except ScriptError Unit × Scope :=
  (runSource env source file).run scope

/-- The source text of a script file. -/
def readScript (env : Environment) (path : Path) : Except ConfigError (List Char) :=
  match env.read path with
  | .ok (.text source) => .ok source
  | .ok (.binary _) => .error (.script ⟨some path, 1, 1, .invalidUtf8⟩)
  | .error fault => .error (.io fault)

/-- The scope after running the script at `path`. -/
def Scope.afterFile (scope : Scope) (env : Environment) (path : Path) :
    Except ConfigError Scope := do
  let source ← readScript env path
  match scope.executeSource env source path with
  | (.ok _, after) => return after
  | (.error e, _) => throw (.script e)

/-- What is there before a script runs. -/
structure Reader where
  host : Scope

namespace Reader

/-- The reader that provides what every script may rely on. -/
def standard : Reader := ⟨.withBuiltins⟩

/-- Let the host provide one more constant. -/
def withConstant (r : Reader) (name : String) (value : Value) : Reader :=
  ⟨(r.host.define name value).2⟩

/-- The scope in which the script at `path` starts: it counts as loaded. -/
def start (r : Reader) (path : Path) : Scope := r.host.markLoaded path

/-- The entries of a source text, run as the file `path`, which need not exist. -/
def readSource (r : Reader) (env : Environment) (source : List Char) (path : Path) :
    Except ScriptError (List Entry) :=
  let before := r.start path
  match before.executeSource env source path with
  | (.ok _, after) => .ok (before.snapshot.diff after)
  | (.error e, _) => .error e

/-- The entries of the script at `path`. -/
def read (r : Reader) (env : Environment) (path : Path) : Except ConfigError (List Entry) := do
  if !env.pathExists path then throw (.configNotFound path)
  else
    let resolved ← (env.canonical path).mapError .io
    let before := r.start resolved
    let after ← before.afterFile env resolved
    return before.snapshot.diff after

end Reader

end ConfigScript
