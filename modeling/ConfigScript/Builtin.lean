import ConfigScript.Environment
import ConfigScript.Scope
import ConfigScript.Text.Blank
import ConfigScript.Text.Case
import ConfigScript.Value.Arithmetic

/-!
# Functions of the script language

The functions that a configuration script may call and that are evaluated here. A function yields
nothing where it is not known, has another number of arguments, or would stop the script.
-/

namespace ConfigScript.Builtin

/-- The characters that are trimmed unless others are named. -/
def defaultTrim : List Char := [' ', '\t', '\n', '\r', '\x00', '\x0b']

/-- The text without slashes at its end. -/
def dropSlashes (cs : List Char) : List Char := Text.dropEndWhile (· == '/') cs

/-- The directory part of a path. -/
def dirname (path : List Char) : List Char :=
  if path.isEmpty then []
  else
    let trimmed := dropSlashes path
    if trimmed.isEmpty then ['/']
    else match Text.splitAtLast '/' trimmed with
      | none => ['.']
      | some (parent, _) => if (dropSlashes parent).isEmpty then ['/'] else dropSlashes parent

/-- Take the directory part `n` times. -/
def ancestor : Nat → List Char → List Char
  | 0, path => path
  | n + 1, path => ancestor n (dirname path)

/-- The last part of a path, without `suffix` if something is left before it. -/
def basename (path suffix : List Char) : List Char :=
  let trimmed := dropSlashes path
  let name := match Text.splitAtLast '/' trimmed with
    | some (_, last) => last
    | none => trimmed
  if !suffix.isEmpty && suffix.isSuffixOf name && suffix.length < name.length then
    name.take (name.length - suffix.length)
  else name

/-- Fill the values into a format. Only `%s`, `%d` and `%%` are understood. -/
def sprintf : List Char → List Value → Option (List Char)
  | [], _ => some []
  | '%' :: '%' :: cs, args => (sprintf cs args).map ('%' :: ·)
  | '%' :: 's' :: cs, v :: args => (sprintf cs args).map (v.toText.toList ++ ·)
  | '%' :: 'd' :: cs, v :: args => (sprintf cs args).map ((Integer.render v.toInt).toList ++ ·)
  | '%' :: _, _ => none
  | c :: cs, args => (sprintf cs args).map (c :: ·)

/-- The texts of the elements with `separator` between them. -/
def implode (separator : Value) (items : List (Key × Value)) : Value :=
  .string (separator.toText.intercalate (items.map fun (_, v) => v.toText))

/-- The text of a value, changed. -/
def onText (f : List Char → List Char) (v : Value) : Option Value :=
  some (.string (String.ofList (f v.toText.toList)))

/-- Trim with one of the three trimming functions. -/
def trimBy (f : (Char → Bool) → List Char → List Char) (v : Value) (chars : List Char) :
    Option Value :=
  onText (f chars.contains) v

/-- A test of the file that a value names. -/
def fileTest (test : Path → Bool) (v : Value) : Option Value :=
  some (.bool (test (.ofString v.toText)))

/-- Call the function `name`, which is given in lower case. -/
def call (env : Environment) (scope : Scope) (name : String) (args : List Value) : Option Value :=
  match name, args with
  | "defined", [c] => some (.bool (scope.constant? c.toText).isSome)
  | "constant", [c] => scope.constant? c.toText
  | "dirname", [path] => onText dirname path
  | "dirname", [path, levels] => onText (ancestor (max levels.toInt.toInt 1).toNat) path
  | "basename", [path] => onText (basename · []) path
  | "basename", [path, suffix] => onText (basename · suffix.toText.toList) path
  | "getenv", [v] =>
    some (((Assoc.lookup v.toText env.exported).map Value.string).getD (.bool false))
  | "file_exists", [path] => fileTest env.pathExists path
  | "is_file", [path] => fileTest env.isFile path
  | "is_dir", [path] => fileTest env.isDirectory path
  | "is_readable", [path] => fileTest env.pathExists path
  | "strtolower", [v] => onText Text.lowerCase v
  | "strtoupper", [v] => onText Text.upperCase v
  | "trim", [v] => trimBy Text.dropBothWhile v defaultTrim
  | "trim", [v, chars] => trimBy Text.dropBothWhile v chars.toText.toList
  | "ltrim", [v] => trimBy List.dropWhile v defaultTrim
  | "ltrim", [v, chars] => trimBy List.dropWhile v chars.toText.toList
  | "rtrim", [v] => trimBy Text.dropEndWhile v defaultTrim
  | "rtrim", [v, chars] => trimBy Text.dropEndWhile v chars.toText.toList
  | "intval", [v] => some (.int v.toInt)
  | "floatval", [v] => v.numeric?.map fun n => .float n.toFloat
  | "strval", [v] => some (.string v.toText)
  | "boolval", [v] => some (.bool v.isTruthy)
  | "sprintf", format :: rest =>
    (sprintf format.toText.toList rest).map fun cs => .string (String.ofList cs)
  | "implode", [separator, .array items] => some (implode separator items)
  | "implode", [.array items, separator] => some (implode separator items)
  | "implode", [.array items] => some (implode (.string "") items)
  | _, _ => none

end ConfigScript.Builtin
