import ConfigScript.CommandLine.Matching
import ConfigScript.Format.Report
import ConfigScript.Store.Create

/-!
# Invocations

The commands of the program, the grammar of its command line, and the command that words stand for.
-/

namespace ConfigScript.CommandLine

/-- Write the escapes `\n`, `\r` and `\t` as the characters that they stand for, which are hard to
type in a shell. One kind is replaced after the other, and a backslash is not escaped. -/
def expandEscapes (cs : List Char) : List Char :=
  Text.replacePair '\\' 't' ['\t']
    (Text.replacePair '\\' 'r' ['\r'] (Text.replacePair '\\' 'n' ['\n'] cs))

/-! ### Commands -/

/-- What the program is to do. -/
inductive Command where
  /-- Make a new file, with further source text from the input if `extra` holds. -/
  | create (options : CreateOptions) (extra : Bool)
  | get (name : String) (filter : TypeFilter) (format : ValueFormat)
  | set (name value : String) (filter : TypeFilter) (options : Edit.Options)
  | delete (name : String) (filter : TypeFilter)
  | has (name : String) (filter : TypeFilter)
  | isTrue (name : String) (filter : TypeFilter)
  | list (filters : List String) (strict : Bool) (fields : List String) (format : ListFormat)
  | shuffle (keys : List String) (force insecure : Bool)
  | path
  | edit

/-- A command and what holds for all commands. -/
structure Invocation where
  command : Command
  /-- The configuration file, if it is named. -/
  file : Option Path
  /-- Only errors are reported. -/
  quiet : Bool

/-! ### The grammar -/

/-- The option that chooses a namespace. -/
def typeOption : OptionSpec where
  name := "type"
  use := .value "KIND" (.choice ["all", "constant", "variable"])
  standard := some "all"

/-- The option that chooses a format; the first one is the standard. -/
def formatOption (formats : List String) : OptionSpec where
  name := "format"
  use := .value "FORMAT" (.choice formats)
  standard := formats.head?

/-- A setting of a new file. -/
def settingOption (name label : String) (standard : Option String) : OptionSpec where
  name := name
  use := .value label .text
  required := standard.isNone
  standard := standard

/-- The operand that names an entry. -/
def nameOperand : OperandSpec where
  label := "NAME"

/-- A command that takes the name of an entry. -/
def nameCommand (name about : String) : CommandSpec := ⟨name, about, [nameOperand], [typeOption]⟩

/-- The command that makes a new file. -/
def createCommand : CommandSpec where
  name := "create"
  about := "Generate a new wp-config.php file"
  operands := []
  options :=
    [settingOption "dbname" "DBNAME" none,
      settingOption "dbuser" "DBUSER" none,
      settingOption "dbpass" "DBPASS" (some ""),
      settingOption "dbhost" "DBHOST" (some "localhost"),
      settingOption "dbprefix" "DBPREFIX" (some "wp_"),
      settingOption "dbcharset" "DBCHARSET" (some "utf8"),
      settingOption "dbcollate" "DBCOLLATE" (some ""),
      settingOption "locale" "LOCALE" (some ""),
      { name := "extra-php", use := .flag, about := "Read additional PHP from stdin" },
      { name := "skip-salts", use := .flag },
      { name := "skip-check", use := .flag,
        about := "Accepted for compatibility; no database connection is attempted" },
      { name := "force", use := .flag, about := "Overwrite an existing file" },
      { name := "insecure", use := .flag,
        about := "Retry the salt service without certificate checks" }]

/-- The command that prints a value. -/
def getCommand : CommandSpec where
  name := "get"
  about := "Print the value of a constant or variable"
  operands := [nameOperand]
  options := [typeOption, formatOption ["text", "json", "yaml"]]

/-- The command that sets an entry. -/
def setCommand : CommandSpec where
  name := "set"
  about := "Add or update a constant or variable"
  operands := [nameOperand, { label := "VALUE" }]
  options :=
    [{ name := "add", use := .flag, about := "Add the entry when it is missing (default)",
        undoes := ["no-add"] },
      { name := "no-add", use := .flag, about := "Fail instead of adding a missing entry",
        undoes := ["add"] },
      { name := "raw", use := .flag,
        about := "Write the value as PHP code instead of a string literal" },
      { name := "anchor", use := .value "ANCHOR" .text,
        about := "Text new entries are placed next to; `EOF` for the end of the file" },
      { name := "placement", use := .value "PLACEMENT" (.choice ["before", "after"]),
        standard := some "before" },
      { name := "separator", use := .value "SEPARATOR" .text,
        about := "Text between a new entry and the anchor. Understands \\n, \\r and \\t" },
      typeOption,
      { name := "normalize", use := .flag,
        about := "Rewrite an existing statement in canonical form" }]

/-- The command that lists entries. -/
def listCommand : CommandSpec where
  name := "list"
  about := "List the constants, variables and includes the file defines"
  operands := [⟨"FILTERS", "Only list entries whose name contains one of these", true⟩]
  options :=
    [{ name := "strict", use := .flag, about := "Match filters against the whole name" },
      { name := "fields", use := .values "FIELDS", standard := some "name,value,type" },
      formatOption ["table", "csv", "json", "yaml", "dotenv"]]

/-- The command that gives salts new values. -/
def shuffleCommand : CommandSpec where
  name := "shuffle-salts"
  about := "Refresh the authentication keys and salts"
  operands := [⟨"KEYS", "Keys to refresh. Defaults to the eight standard salts", true⟩]
  options :=
    [{ name := "force", use := .flag, about := "Also refresh keys that are not standard salts" },
      { name := "insecure", use := .flag }]

/-- The grammar of the command line. -/
def program : ProgramSpec where
  name := "wpconfig"
  version := "0.1.0"
  about := "Read and edit wp-config.php as a key-value store"
  commands :=
    [createCommand, getCommand, setCommand,
      nameCommand "delete" "Remove a constant or variable",
      nameCommand "has" "Exit 0 when a constant or variable exists, 1 otherwise",
      nameCommand "is-true" "Exit 0 when a constant or variable is truthy, 1 otherwise",
      listCommand, shuffleCommand,
      ⟨"path", "Print the path of the config file", [], []⟩,
      ⟨"edit", "Open the config file in an editor", [], []⟩]
  shared :=
    [{ name := "config-file", use := .value "PATH" .path, source := some "WPCONFIG_FILE",
        about :=
          "Config file to operate on. Discovered from the working directory when omitted" },
      { name := "debug", use := .flag, about := "Print evaluator and transformer diagnostics" },
      { name := "quiet", use := .flag, about := "Only print errors", excludes := ["debug"] }]

/-! ### From words to commands -/

namespace CommandMatch

/-- The namespaces that are asked for. -/
def filter (m : CommandMatch) : TypeFilter :=
  match m.value? "type" with
  | some "constant" => .only .const
  | some "variable" => .only .var
  | _ => .all

/-- The format of a value that is asked for. -/
def valueFormat (m : CommandMatch) : ValueFormat :=
  match m.value? "format" with
  | some "json" => .json
  | some "yaml" => .yaml
  | _ => .text

/-- The format of a list that is asked for. -/
def listFormat (m : CommandMatch) : ListFormat :=
  match m.value? "format" with
  | some "csv" => .csv
  | some "json" => .json
  | some "yaml" => .yaml
  | some "dotenv" => .dotenv
  | _ => .table

/-- How an entry is to be set. Adding is what happens unless it is ruled out. -/
def editOptions (m : CommandMatch) : Edit.Options where
  raw := m.has "raw"
  add := m.has "add" || !m.has "no-add"
  normalize := m.has "normalize"
  anchor := ((m.value? "anchor").map fun t => Edit.Anchor.ofText t.toList).getD .standard
  placement := if m.value? "placement" == some "after" then .afterAnchor else .beforeAnchor
  separator := ((m.value? "separator").map fun t => expandEscapes t.toList).getD
    Edit.Options.standard.separator

/-- The settings of a new file. -/
def createOptions (m : CommandMatch) : CreateOptions where
  dbname := (m.value? "dbname").getD ""
  dbuser := (m.value? "dbuser").getD ""
  dbpass := (m.value? "dbpass").getD ""
  dbhost := (m.value? "dbhost").getD ""
  dbprefix := (m.value? "dbprefix").getD ""
  dbcharset := (m.value? "dbcharset").getD ""
  dbcollate := (m.value? "dbcollate").getD ""
  locale := (m.value? "locale").getD ""
  extra := []
  skipSalts := m.has "skip-salts"
  force := m.has "force"
  insecure := m.has "insecure"

/-- The command that was matched. -/
def command (m : CommandMatch) : Command :=
  match m.spec.name with
  | "create" => .create m.createOptions (m.has "extra-php")
  | "get" => .get (m.operand 0) m.filter m.valueFormat
  | "set" => .set (m.operand 0) (m.operand 1) m.filter m.editOptions
  | "delete" => .delete (m.operand 0) m.filter
  | "has" => .has (m.operand 0) m.filter
  | "is-true" => .isTrue (m.operand 0) m.filter
  | "list" => .list m.inner.operands (m.has "strict") (m.values "fields") m.listFormat
  | "shuffle-salts" => .shuffle m.inner.operands (m.has "force") (m.has "insecure")
  | "edit" => .edit
  | _ => .path

/-- The invocation that was matched. -/
def invocation (m : CommandMatch) : Invocation :=
  ⟨m.command, (m.value? "config-file").map Path.ofString, m.has "quiet"⟩

end CommandMatch

/-- The invocation that words stand for. -/
def Invocation.ofWords (exported : List (String × String)) (words : List String) :
    Except Detour Invocation :=
  (program.read exported words).map (·.invocation)

end ConfigScript.CommandLine
