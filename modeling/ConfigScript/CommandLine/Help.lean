import ConfigScript.CommandLine.Matching
import ConfigScript.Text.Blank

/-!
# Help on command lines

The text that explains a program or one of its commands: what it is about, how it is called, and a
list of its commands, operands and options, in columns. All of these texts are plain letters, so the
width of a text is the number of its characters.
-/

namespace ConfigScript.CommandLine

/-! ### Columns -/

/-- A text with blanks behind it, up to a width. -/
def padded (width : Nat) (s : String) : String :=
  s ++ String.ofList (List.replicate (width - s.length) ' ')

/-- A line for each row: the margin, the left part, and the right part in a column of its own. -/
def columns (rows : List (String × String × String)) : List String :=
  let width := rows.foldl (fun n (_, left, _) => max n left.length) 2
  rows.map fun (margin, left, right) => "  " ++ margin ++ padded width left ++ "  " ++ right

/-- A list with a heading; nothing for an empty list. -/
def section? (heading : String) (lines : List String) : List String :=
  if lines.isEmpty then [] else [heading ++ ":\n" ++ "\n".intercalate lines]

/-! ### Commands, operands and options -/

/-- How an operand is written in a call. -/
def OperandSpec.usage (o : OperandSpec) : String :=
  if o.repeated then "[" ++ o.label ++ "]..." else "<" ++ o.label ++ ">"

/-- How an option is written in a call. -/
def OptionSpec.usage (o : OptionSpec) : String :=
  match o.use.label? with
  | some label => "--" ++ o.name ++ " <" ++ label ++ ">"
  | none => "--" ++ o.name

/-- How the value of an option that is not written is shown: in quotes where it would not stand out
from the text around it. -/
def standardText (text : String) : String :=
  if text.isEmpty || text.toList.any Text.isBlank then "\"" ++ text ++ "\"" else text

/-- What is said of an option behind its description. -/
def OptionSpec.remarks (exported : List (String × String)) (o : OptionSpec) : List String :=
  let source := o.source.map fun name =>
    "[env: " ++ name ++ "=" ++ (Assoc.lookup name exported).getD "" ++ "]"
  let standard := o.standard.map fun text => "[default: " ++ standardText text ++ "]"
  let choices := match o.use with
    | .value _ (.choice names) => some ("[possible values: " ++ ", ".intercalate names ++ "]")
    | _ => none
  [source, standard, choices].filterMap id

/-- The row of an option. -/
def OptionSpec.row (exported : List (String × String)) (o : OptionSpec) :
    String × String × String :=
  let margin := match o.letter with
    | some c => String.ofList ['-', c, ',', ' ']
    | none => "    "
  let parts := (if o.about == "" then [] else [o.about]) ++ o.remarks exported
  (margin, o.usage, " ".intercalate parts)

/-- Whether a text stands before another in the order of characters. -/
def standsBefore (a b : Nat × String) : Bool :=
  a.1 < b.1 || (a.1 == b.1 && a.2 ≤ b.2)

/-- Options with numbers, from a first one on, and with their names. -/
def numbered (first : Nat) (os : List OptionSpec) : List ((Nat × String) × OptionSpec) :=
  (os.zipIdx first).map fun (o, n) => ((n, o.name), o)

/-- The options of a command and the shared ones, merged by their numbers; of two options with one
number, the name decides. The numbers of the shared options go on from those of the program's
commands, so that the first options of a command stand before the shared ones. -/
def mergeOptions (commands : Nat) (own shared : List OptionSpec) : List OptionSpec :=
  ((numbered 0 own ++ numbered commands shared).mergeSort fun a b =>
    standsBefore a.1 b.1).map (·.2)

/-! ### Pages -/

/-- A page of help. -/
def page (about usage : String) (sections : List String) : String :=
  let text := about ++ "\n\nUsage: " ++ usage ++ "\n\n" ++ "\n\n".intercalate sections
  String.ofList (Text.trimEnd text.toList) ++ "\n"

namespace ProgramSpec

/-- The help on the program. -/
def help (p : ProgramSpec) (exported : List (String × String)) : String :=
  let commands := columns ((p.commands ++ [helpCommand]).map fun c => ("", c.name, c.about))
  let options := columns ((p.shared ++ [helpOption, versionOption]).map (·.row exported))
  page p.about (p.name ++ " [OPTIONS] <COMMAND>")
    (section? "Commands" commands ++ section? "Options" options)

/-- The options that the help on a command lists. -/
def optionsOf (p : ProgramSpec) (c : CommandSpec) : List OptionSpec :=
  if c.name == helpCommand.name then []
  else mergeOptions p.commands.length c.options p.shared ++ [helpOption]

/-- How a command is called. -/
def usageOf (p : ProgramSpec) (c : CommandSpec) : String :=
  let options := if (p.optionsOf c).isEmpty then [] else ["[OPTIONS]"]
  let required := (c.options.filter (·.required)).map (·.usage)
  " ".intercalate ([p.name, c.name] ++ options ++ required ++ c.operands.map (·.usage))

/-- The help on a command. -/
def commandHelp (p : ProgramSpec) (exported : List (String × String)) (c : CommandSpec) :
    String :=
  let operands := columns (c.operands.map fun o => ("", o.usage, o.about))
  let options := columns ((p.optionsOf c).map (·.row exported))
  page c.about (p.usageOf c) (section? "Arguments" operands ++ section? "Options" options)

/-- The text of a page of help. -/
def helpPage (p : ProgramSpec) (exported : List (String × String)) : HelpPage → String
  | .program => p.help exported
  | .command c => p.commandHelp exported c

end ProgramSpec

end ConfigScript.CommandLine
