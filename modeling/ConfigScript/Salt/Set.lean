import ConfigScript.Reader
import ConfigScript.Salt.Entropy

/-!
# Salts

The constants whose values are random keys, and the keys for them: drawn here, or taken from the
answer of a service, which is a piece of script.
-/

namespace ConfigScript.Salt

/-- The salts of every configuration file. -/
def names : List String :=
  ["AUTH_KEY", "SECURE_AUTH_KEY", "LOGGED_IN_KEY", "NONCE_KEY", "AUTH_SALT", "SECURE_AUTH_SALT",
    "LOGGED_IN_SALT", "NONCE_SALT"]

/-- A further salt of new configuration files. -/
def cacheName : String := "WP_CACHE_KEY_SALT"

/-- The length of a key. -/
def keyLength : Nat := 64

/-- Whether the name is one of the salts of every configuration file. -/
def isName (name : String) : Bool := names.contains name

/-- Keys for the given names; `none` if the source runs dry. -/
def keysFor (wanted : List String) (e : Entropy) : Option (List (String × String)) × Entropy :=
  let (keys?, e) := drawAll (wanted.map fun _ => keyLength) e
  (keys?.map fun keys => wanted.zip (keys.map String.ofList), e)

/-- The names of the salts of a new file, with the further one or without. -/
def freshNames (cache : Bool) : List String := if cache then names ++ [cacheName] else names

/-- The name that the answer of a service is run under. -/
def answerPath : Path := .ofString "salts.php"

/-- A text constant as a salt. -/
def ofEntry? (e : Entry) : Option (String × String) :=
  match e.kind, e.value with
  | .const, .string s => some (e.name, s)
  | _, _ => none

/-- The salts in the answer of a service: the constants with text values that it defines. The
opening tag may be missing. -/
def parse (env : Environment) (body : List Char) :
    Except ScriptError (List (String × String)) :=
  let source :=
    if ['<', '?'].isPrefixOf (Text.trimStart body) then body else "<?php\n".toList ++ body
  (Reader.standard.readSource env source answerPath).map (·.filterMap ofEntry?)

end ConfigScript.Salt
