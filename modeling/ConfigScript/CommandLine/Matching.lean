import ConfigScript.Assoc
import ConfigScript.CommandLine.Grammar
import ConfigScript.Text.Search

/-!
# Reading the words of a command line

Words are read from left to right. The value of an option stands behind an equals sign or is the
next word; a next word that looks like an option is no value. Behind `--` all words are operands.

A value in a word of its own is looked at when the reading goes on to something that needs the state
to be settled: another option, an operand, or the end. Asking for help ends the reading at once, so
what is wrong behind it does not matter.
-/

namespace ConfigScript.CommandLine

/-- What help is about. -/
inductive HelpPage where
  | program
  | command (spec : CommandSpec)
deriving Repr

/-- Why words lead to no command. -/
inductive Detour where
  /-- The words do not fit the grammar. -/
  | misuse
  | help (page : HelpPage)
  | version
deriving Repr

/-! ### Words -/

/-- The look of a word. -/
inductive Word where
  /-- The word `--`. -/
  | escape
  | long (name : String) (value : Option String)
  | letters (cs : List Char)
  | plain (text : String)
deriving DecidableEq, Repr

/-- The look of a word. A single hyphen is a plain word. -/
def Word.ofString (s : String) : Word :=
  match s.toList with
  | ['-', '-'] => escape
  | '-' :: '-' :: cs =>
    match Text.splitAtFirst ['='] cs with
    | some (name, value) => long (String.ofList name) (some (String.ofList (value.drop 1)))
    | none => long (String.ofList cs) none
  | '-' :: c :: cs => letters (c :: cs)
  | _ => plain s

/-! ### What was read -/

/-- The options and operands that were read. -/
structure Matches where
  /-- Options with their values. -/
  given : List (String × List String) := []
  /-- The option that was read last, and its value if that was read; not yet looked at. -/
  pending : Option (OptionSpec × Option String) := none
  operands : List String := []
  /-- Options whose values come from environment variables. -/
  inherited : List (String × List String) := []
deriving Repr

namespace Matches

/-- Whether the next word must be a value. -/
def isAwaiting (m : Matches) : Bool := m.pending.any fun (_, value) => value.isNone

/-- Whether an option stands among the words. -/
def has (m : Matches) (name : String) : Bool := Assoc.contains name m.given

/-- Record an occurrence of an option. Only those with several values may be repeated. -/
def record (m : Matches) (o : OptionSpec) (values : List String) : Except Detour Matches :=
  let again := m.has o.name
  let repeatable := match o.use with
    | .values _ => true
    | _ => false
  if again && !repeatable then .error .misuse
  else
    let old := (Assoc.lookup o.name m.given).getD []
    let kept := o.undoes.foldl (fun given name => Assoc.erase name given) m.given
    .ok { m with given := Assoc.insert o.name (old ++ values) kept }

/-- The values that a text gives to an option. -/
def valuesOf (o : OptionSpec) (text : String) : Except Detour (List String) :=
  match o.use with
  | .value _ form => if form.admits text then .ok [text] else .error .misuse
  | .values _ => .ok ((Text.splitOn ',' text.toList).map String.ofList)
  | .flag | .help | .version => .error .misuse

/-- The values of an option that is not given. -/
def standardValues (o : OptionSpec) : List String :=
  match o.standard.map (valuesOf o) with
  | some (.ok values) => values
  | _ => []

/-- Look at the pending option. -/
def settle (m : Matches) : Except Detour Matches :=
  match m.pending with
  | none => .ok m
  | some (_, none) => .error .misuse
  | some (o, some text) => do
    let values ← valuesOf o text
    record { m with pending := none } o values

end Matches

/-! ### Levels -/

/-- What is understood at one level: before the command, or behind it. -/
structure Level where
  page : HelpPage
  options : List OptionSpec
  operands : List OperandSpec
  commands : List CommandSpec

/-- The level before the command. -/
def ProgramSpec.level (p : ProgramSpec) : Level :=
  ⟨.program, p.shared ++ [helpOption, versionOption], [], p.commands⟩

/-- The level behind a command. -/
def CommandSpec.level (c : CommandSpec) (p : ProgramSpec) : Level :=
  ⟨.command c, c.options ++ p.shared ++ [helpOption], c.operands, []⟩

/-- The command of a name. -/
def ProgramSpec.command? (p : ProgramSpec) (name : String) : Option CommandSpec :=
  p.commands.find? (·.name == name)

namespace Level

/-- The command of a name. -/
def command? (l : Level) (name : String) : Option CommandSpec :=
  l.commands.find? (·.name == name)

/-- What the words behind the command `help` ask for. -/
def helpFor (l : Level) : List String → Detour
  | [] => .help l.page
  | [name] =>
    match (l.commands ++ [helpCommand]).find? (·.name == name) with
    | some c => .help (.command c)
    | none => .misuse
  | _ => .misuse

/-- Read an option, with the value that is attached to it. -/
def takeOption (l : Level) (m : Matches) (o : OptionSpec) (attached : Option String) :
    Except Detour Matches := do
  let m ← m.settle
  match o.use, attached with
  | .flag, none => m.record o []
  | .help, none => throw (.help l.page)
  | .version, none => throw .version
  -- A text that is attached to an option without a value is a misuse.
  | _, some text => m.record o (← Matches.valuesOf o text)
  | .value .., none | .values _, none => return { m with pending := some (o, none) }

/-- Read the letters of a word with one hyphen. -/
def takeLetters (l : Level) (m : Matches) : List Char → Except Detour Matches
  | [] => .ok m
  | c :: cs =>
    match l.options.find? (·.letter == some c) with
    | none => .error .misuse
    | some o => do l.takeLetters (← l.takeOption m o none) cs

/-- Read an operand, if there is a place for one more. -/
def takeOperand (l : Level) (m : Matches) (text : String) : Except Detour Matches := do
  if m.operands.length < l.operands.length || l.operands.any (·.repeated) then
    let m ← m.settle
    return { m with operands := m.operands ++ [text] }
  else throw .misuse

/-- Read a word that does not look like an option. -/
def takePlain (l : Level) (m : Matches) (text : String) : Except Detour Matches :=
  match m.pending with
  | some (o, none) => .ok { m with pending := some (o, some text) }
  | _ => l.takeOperand m text

/-- Read words up to a command, which is returned with the words behind it. -/
def read (l : Level) : List String → Matches →
    Except Detour (Matches × Option (CommandSpec × List String))
  | [], m => .ok (m, none)
  | w :: ws, m =>
    -- A word that must be a value is never taken for a command.
    let word : Option CommandSpec := if m.isAwaiting then none else l.command? w
    if !m.isAwaiting && !l.commands.isEmpty && w == helpCommand.name then .error (l.helpFor ws)
    else match word, Word.ofString w with
      | some c, _ => .ok (m, some (c, ws))
      | none, .escape => do return (← ws.foldlM l.takeOperand m, none)
      | none, .letters cs => do l.read ws (← l.takeLetters m cs)
      | none, .plain text => do l.read ws (← l.takePlain m text)
      | none, .long name value =>
        match l.options.find? (·.name == name) with
        | none => .error .misuse
        | some o => do l.read ws (← l.takeOption m o value)

/-- Take the value of an option from its environment variable where the words give none. -/
def inherit (exported : List (String × String)) (m : Matches) (o : OptionSpec) :
    Except Detour Matches :=
  match o.source.bind (Assoc.lookup · exported) with
  | some text =>
    if m.has o.name then .ok m
    else do
      let values ← Matches.valuesOf o text
      return { m with inherited := m.inherited ++ [(o.name, values)] }
  | none => .ok m

/-- Whether everything required is there, and nothing beside what it excludes. -/
def isComplete (l : Level) (m : Matches) : Bool :=
  (l.operands.filter (!·.repeated)).length ≤ m.operands.length &&
    l.options.all fun o =>
      if m.has o.name then o.excludes.all (!m.has ·) else !o.required

/-- Look at what was read as a whole. -/
def finish (l : Level) (exported : List (String × String)) (m : Matches) :
    Except Detour Matches := do
  let m ← l.options.foldlM (inherit exported) (← m.settle)
  if l.isComplete m then return m else throw .misuse

end Level

/-! ### Command lines -/

/-- A command with what was read behind it and before it. -/
structure CommandMatch where
  spec : CommandSpec
  inner : Matches
  outer : Matches
deriving Repr

namespace CommandMatch

/-- Whether an option stands behind the command or before it. -/
def has (m : CommandMatch) (name : String) : Bool := m.inner.has name || m.outer.has name

/-- The values of an option: those behind the command come first, then those before it, then those
of environment variables, and last the standard ones. -/
def values (m : CommandMatch) (name : String) : List String :=
  -- The lists stand in the order in which they win.
  let found := [m.inner.given, m.outer.given, m.inner.inherited, m.outer.inherited].findSome?
    (Assoc.lookup name)
  found.getD (((m.spec.options.find? (·.name == name)).map Matches.standardValues).getD [])

/-- The value of an option. -/
def value? (m : CommandMatch) (name : String) : Option String := (m.values name).head?

/-- The operand with a number. -/
def operand (m : CommandMatch) (n : Nat) : String := (m.inner.operands[n]?).getD ""

end CommandMatch

/-- Read the words of a command line. -/
def ProgramSpec.read (p : ProgramSpec) (exported : List (String × String)) (words : List String) :
    Except Detour CommandMatch := do
  match ← p.level.read words {} with
  | (_, none) => throw .misuse
  | (outer, some (spec, rest)) =>
    let level := spec.level p
    let inner ← (← level.read rest {}).1 |> level.finish exported
    return ⟨spec, inner, ← p.level.finish exported outer⟩

end ConfigScript.CommandLine
