import ConfigScript.Path
import ConfigScript.Script.Span
import ConfigScript.Text.Digits

/-!
# Faults of a script

Why a script cannot be read or run: a cause, the line and column it is reported at, and the file if
that is known. The wording of every cause is in `Fault.describe`.
-/

namespace ConfigScript

/-- Constructs that the reader of scripts does not support. -/
inductive Feature where
  | attributes | backtickOperator | variableVariables | complexInterpolation | statement
  | references | alternativeControlSyntax | referencesAndIncrements | expression
  | dynamicMemberAccess | emptyIndex | argumentUnpacking | arrayUnpacking
deriving DecidableEq, Repr

/-- How messages name the construct. -/
def Feature.describe : Feature → String
  | attributes => "attributes"
  | backtickOperator => "backtick operator"
  | variableVariables => "variable variables"
  | complexInterpolation => "complex string interpolation"
  | statement => "statement"
  | references => "references"
  | alternativeControlSyntax => "alternative control syntax"
  | referencesAndIncrements => "references and increments"
  | expression => "expression"
  | dynamicMemberAccess => "dynamic member access"
  | emptyIndex => "empty index outside assignment"
  | argumentUnpacking => "argument unpacking"
  | arrayUnpacking => "array unpacking"

/-- Why reading or running a script fails. -/
inductive Fault where
  | unexpectedCharacter (c : Char)
  | unterminatedString
  | unterminatedComment
  | unsupportedSyntax (feature : Feature)
  | unexpectedToken (text : String)
  | unexpectedEnd
  /-- A required file does not exist. -/
  | missingRequire (path : Path)
  | includeDepthExceeded
  | invalidUtf8
deriving DecidableEq, Repr

/-- A character in single quotes; backslash, quote and control characters are escaped. -/
def quoteChar (c : Char) : String :=
  let body :=
    if c == '\\' then "\\\\"
    else if c == '\'' then "\\'"
    else if c == '\n' then "\\n"
    else if c == '\r' then "\\r"
    else if c == '\t' then "\\t"
    else if c == '\x00' then "\\0"
    else if c.toNat < 0x20 || c.toNat == 0x7f then
      "\\u\x7b" ++ String.ofList (Text.hex c.toNat) ++ "\x7d"
    else String.singleton c
  "'" ++ body ++ "'"

/-- The wording of a cause. -/
def Fault.describe : Fault → String
  | unexpectedCharacter c => "unexpected character " ++ quoteChar c
  | unterminatedString => "unterminated string"
  | unterminatedComment => "unterminated comment"
  | unsupportedSyntax feature => "unsupported syntax: " ++ feature.describe
  | unexpectedToken text => "unexpected '" ++ text ++ "'"
  | unexpectedEnd => "unexpected end of file"
  | missingRequire path => "failed opening required '" ++ path.toString ++ "'"
  | includeDepthExceeded => "include depth exceeded"
  | invalidUtf8 => "script is not valid UTF-8"

/-- A fault with the place it is reported at. -/
structure ScriptError where
  path : Option Path
  line : Nat
  column : Nat
  fault : Fault
deriving DecidableEq, Repr

namespace ScriptError

/-- A fault at a place of a file that is not known yet. -/
def atPlace (p : Place) (fault : Fault) : ScriptError := ⟨none, p.line, p.column, fault⟩

/-- A fault at the start of a span. -/
def atSpan (s : Span) (fault : Fault) : ScriptError := ⟨none, s.line, s.column, fault⟩

/-- Name the file, unless one is named already. -/
def inFile (e : ScriptError) (path : Path) : ScriptError :=
  { e with path := some (e.path.getD path) }

/-- The whole message. -/
def message (e : ScriptError) : String :=
  let file := match e.path with
    | some path => " in " ++ path.toString
    | none => ""
  "script error" ++ file ++ " at line " ++ toString e.line ++ ", column " ++ toString e.column ++
    ": " ++ e.fault.describe

end ScriptError

end ConfigScript
