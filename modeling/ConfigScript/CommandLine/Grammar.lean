/-!
# Grammars of command lines

What a program with several commands understands: its commands, and the options and operands of
each. A grammar is data, from which words are read and help is written.
-/

namespace ConfigScript.CommandLine

/-- Which texts are values of an option. -/
inductive ValueForm where
  | text
  /-- A path, which is not empty. -/
  | path
  | choice (names : List String)
deriving DecidableEq, Repr

/-- Whether a text is a value. -/
def ValueForm.admits : ValueForm → String → Bool
  | text, _ => true
  | path, s => s != ""
  | choice names, s => names.contains s

/-- What an option is for. -/
inductive OptionUse where
  | flag
  | value (label : String) (form : ValueForm)
  /-- Texts between commas, in one or several occurrences of the option. -/
  | values (label : String)
  | help
  | version
deriving DecidableEq, Repr

/-- The word for the value of an option. -/
def OptionUse.label? : OptionUse → Option String
  | value label _ | values label => some label
  | flag | help | version => none

/-- An option. Those with a letter take no value. -/
structure OptionSpec where
  name : String
  letter : Option Char := none
  use : OptionUse
  about : String := ""
  required : Bool := false
  /-- The value where none is given. -/
  standard : Option String := none
  /-- The environment variable that gives the value where the words do not. -/
  source : Option String := none
  /-- Options that this one makes undone. -/
  undoes : List String := []
  /-- Options that do not go with this one. -/
  excludes : List String := []
deriving Repr

/-- An operand: a word that belongs to no option. -/
structure OperandSpec where
  label : String
  about : String := ""
  /-- It stands for any number of words; else for one. -/
  repeated : Bool := false
deriving Repr

/-- A command. -/
structure CommandSpec where
  name : String
  about : String
  operands : List OperandSpec
  options : List OptionSpec
deriving Repr

/-- A program. -/
structure ProgramSpec where
  name : String
  version : String
  about : String
  commands : List CommandSpec
  /-- Options that stand before the command or behind it. -/
  shared : List OptionSpec
deriving Repr

/-- The option that asks for help. -/
def helpOption : OptionSpec where
  name := "help"
  letter := some 'h'
  use := .help
  about := "Print help"

/-- The option that asks for the version. -/
def versionOption : OptionSpec where
  name := "version"
  letter := some 'V'
  use := .version
  about := "Print version"

/-- The command that asks for help on commands. -/
def helpCommand : CommandSpec where
  name := "help"
  about := "Print this message or the help of the given subcommand(s)"
  operands := [⟨"COMMAND", "Print help for the subcommand(s)", true⟩]
  options := []

end ConfigScript.CommandLine
