import ConfigScript.Error

/-!
# Finding the configuration file

The file is named, or it is the nearest one of its usual name in a directory or above it.
-/

namespace ConfigScript.Discovery

/-- The usual name of a configuration file. -/
def fileName : Path := .ofString "wp-config.php"

/-- The nearest configuration file at or above `start`. -/
def findUpward (env : Environment) (start : Path) : Option Path :=
  (start.ancestors.map (·.join fileName)).find? env.isFile

/-- The configuration file: the named one if one is named, else the nearest one. -/
def existing (env : Environment) (named : Option Path) (start : Path) : Except ConfigError Path :=
  match named with
  | some path => if env.isFile path then .ok path else .error (.configNotFound path)
  | none =>
    match findUpward env start with
    | some path => .ok path
    | none => .error (.configNotFound (start.join fileName))

/-- Where a new configuration file is written. -/
def creationTarget (named : Option Path) (directory : Path) : Path :=
  named.getD (directory.join fileName)

end ConfigScript.Discovery
