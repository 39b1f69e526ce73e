import ConfigScript.CommandLine.Help
import ConfigScript.CommandLine.Invocation
import ConfigScript.Discovery
import ConfigScript.Store.Shuffle

/-!
# Running commands

What a command does and what it shows. The input and the start of other programs are parameters, so
a run is a function of the machine; it shows an exit code and two outputs.
-/

namespace ConfigScript.CommandLine

/-- What became of a program that was started. -/
structure ExitStatus where
  code : Nat
deriving DecidableEq, Repr

/-- Whether the program succeeded. -/
def ExitStatus.isSuccess (s : ExitStatus) : Bool := s.code == 0

/-- The wording of the status. -/
def ExitStatus.message (s : ExitStatus) : String := "exit status: " ++ toString s.code

/-- How programs are started: a program and its arguments, and what comes of it; or why it does not
start. -/
abbrev Launcher := String → List String → Environment → Except String (ExitStatus × Environment)

/-- What a run finds besides the machine. -/
structure Surroundings where
  /-- The text that is given to the program. -/
  input : Except IoFault (List Char)
  launch : Launcher

/-- What a run shows. -/
structure Outcome where
  code : Nat
  out : String
  err : String
deriving DecidableEq, Repr

/-! ### Failures -/

/-- Why a command fails. -/
inductive Failure where
  | config (error : ConfigError)
  | fields (error : FieldError)
  /-- The input cannot be read. -/
  | input (fault : IoFault)
  | editorMissing (editor reason : String)
  | editorFailed (editor : String) (status : ExitStatus)

/-- The wording of a failure. -/
def Failure.message : Failure → String
  | config error => error.message
  | fields error => error.message
  | input fault => "could not read extra PHP from stdin: " ++ fault.message
  | editorMissing editor reason => "failed to launch `" ++ editor ++ "`: " ++ reason
  | editorFailed editor status => "`" ++ editor ++ "` exited with " ++ status.message

/-- What a command does to the machine. -/
abbrev Task (α : Type) := ExceptT Failure (StateM Machine) α

namespace Task

/-- An operation of a store as part of a command. -/
def ofOperation {α : Type} (op : Operation α) : Task α := ExceptT.adapt .config op

/-- A result that is known. -/
def ofExcept {α : Type} (x : Except Failure α) : Task α := ExceptT.mk (pure x)

/-- The environment. -/
def environment : Task Environment := do return (← get).environment

end Task

/-! ### Notices -/

/-- Something to show. -/
inductive Notice where
  | answer (text : String)
  | success (text : String)
  | warning (text : String)
  | error (text : String)
deriving DecidableEq, Repr

namespace Notice

/-- What goes to the output. -/
def out (quiet : Bool) : Notice → String
  | answer text => text ++ "\n"
  | success text => if quiet then "" else "Success: " ++ text ++ "\n"
  | warning _ | error _ => ""

/-- What goes to the output for errors. -/
def err (quiet : Bool) : Notice → String
  | warning text => if quiet then "" else "Warning: " ++ text ++ "\n"
  | error text => "Error: " ++ text ++ "\n"
  | answer _ | success _ => ""

end Notice

/-- What a command shows: whether it ends well, and notices. -/
structure Answer where
  good : Bool
  notices : List Notice

/-- The answer of a command that shows one notice and ends well. -/
def Answer.one (n : Notice) : Answer := ⟨true, [n]⟩

/-- The answer to a question, which is shown by the exit code alone. -/
def Answer.ofBool (b : Bool) : Answer := ⟨b, []⟩

/-- The outcome with the given answer or failure. -/
def Outcome.ofResult (quiet : Bool) : Except Failure Answer → Outcome
  | .ok a =>
    ⟨if a.good then 0 else 1, String.join (a.notices.map (·.out quiet)),
      String.join (a.notices.map (·.err quiet))⟩
  | .error e => ⟨1, "", (Notice.error e.message).err quiet⟩

/-! ### Commands -/

/-- The store of the configuration file that is named, or found from the working directory. -/
def openStore (file : Option Path) : Task Store := do
  let env ← Task.environment
  let directory := Environment.pathOf env.workingDirectory
  let path ← Task.ofOperation (.query fun env => Discovery.existing env file directory)
  Task.ofOperation (Store.openFile path .standard)

/-- Make a new configuration file. -/
def runCreate (around : Surroundings) (file : Option Path) (o : CreateOptions) (extra : Bool) :
    Task Answer := do
  let env ← Task.environment
  let target := Discovery.creationTarget file (Environment.pathOf env.workingDirectory)
  let source ← if extra then Task.ofExcept (around.input.mapError .input) else pure []
  let store ← Task.ofOperation (Store.create target .standard { o with extra := source })
  return .one (.success ("Generated '" ++ store.fileName ++ "' file."))

/-- What is said about an entry that was set. -/
def setMessage (o : SetOutcome) (name value file : String) : String :=
  let kind := o.kind.toText
  let what := (if o.raw then "raw value '" else "value '") ++ value ++ "'."
  if o.added then
    "Added the " ++ kind ++ " '" ++ name ++ "' to the '" ++ file ++ "' file with the " ++ what
  else if o.changed then
    "Updated the " ++ kind ++ " '" ++ name ++ "' in the '" ++ file ++ "' file with the " ++ what
  else
    "The " ++ kind ++ " '" ++ name ++ "' in the '" ++ file ++ "' file already has the " ++ what

/-- What is said about an entry that was removed. -/
def deleteMessage (kind : EntryKind) (name file : String) : String :=
  "Deleted the " ++ kind.toText ++ " '" ++ name ++ "' from the '" ++ file ++ "' file."

/-- List entries. An empty list is not shown where its format has no text for it. -/
def runList (s : Store) (filters : List String) (strict : Bool) (labels : List String)
    (format : ListFormat) : Task Answer := do
  let fields ← Task.ofExcept ((Field.ofLabels labels).mapError .fields)
  let text := renderEntries (← Task.ofOperation (s.list filters strict)) fields format
  return ⟨true, if text == "" then [] else [.answer text]⟩

/-- What became of the keys, in one sentence. -/
def shuffleSummary (r : ShuffleReport) : String :=
  let count (n : Nat) (what : String) : List String :=
    if n == 0 then [] else [toString n ++ what]
  let notes := count r.skipped " skipped" ++ count r.errored " failed"
  let remark := if notes.isEmpty then "" else " (" ++ ", ".intercalate notes ++ ")"
  "Shuffled " ++ toString r.succeeded ++ " of " ++ toString r.requested ++ " salt keys" ++
    remark ++ "."

/-- The warnings about keys: those that were skipped, those that failed, and where the values come
from. -/
def shuffleWarnings (r : ShuffleReport) : List Notice :=
  (r.skippedKeys.map fun key =>
      .warning ("Could not shuffle the unknown key '" ++ key ++
        "'. Use --force to shuffle it anyway.")) ++
    (r.failures.map fun (key, reason) =>
      .warning ("Could not shuffle the key '" ++ key ++ "': " ++ reason)) ++
    (if r.usedRemote then [.warning "Salts were fetched from the remote service."] else [])

/-- Give keys new values. -/
def runShuffle (s : Store) (keys : List String) (force insecure : Bool) : Task Answer := do
  let report ← Task.ofOperation (s.shuffle keys force insecure)
  let good := report.errored == 0
  let summary := shuffleSummary report
  return ⟨good, shuffleWarnings report ++ [if good then .success summary else .error summary]⟩

/-- The editor that the environment asks for: the first of the two usual variables that is set,
unless it is blank. -/
def editorLine (exported : List (String × String)) : String :=
  match (Assoc.lookup "VISUAL" exported).or (Assoc.lookup "EDITOR" exported) with
  | some line => if (Text.trim line.toList).isEmpty then "vi" else line
  | none => "vi"

/-- Start the editor on the configuration file. -/
def runEdit (around : Surroundings) (s : Store) : Task Answer := do
  let env ← Task.environment
  let line := editorLine env.exported
  let words := (Text.words line.toList).map String.ofList
  match around.launch (words.headD line) (words.drop 1 ++ [s.path.toString]) env with
  | .error reason => throw (.editorMissing line reason)
  | .ok (status, after) =>
    modify fun m => { m with environment := after }
    if status.isSuccess then return ⟨true, []⟩ else throw (.editorFailed line status)

/-- Run a command. -/
def runCommand (around : Surroundings) (file : Option Path) (command : Command) : Task Answer := do
  match command with
  | .create o extra => runCreate around file o extra
  | .get name filter format =>
    let entry ← Task.ofOperation ((← openStore file).get name filter)
    return .one (.answer (entry.value.render format))
  | .set name value filter o =>
    let s ← openStore file
    let outcome ← Task.ofOperation (s.set name value.toList filter o)
    return .one (.success (setMessage outcome name value s.fileName))
  | .delete name filter =>
    let s ← openStore file
    let kind ← Task.ofOperation (s.delete name filter)
    return .one (.success (deleteMessage kind name s.fileName))
  | .has name filter => return .ofBool (← Task.ofOperation ((← openStore file).has name filter))
  | .isTrue name filter =>
    return .ofBool (← Task.ofOperation ((← openStore file).isTrue name filter))
  | .list filters strict labels format => runList (← openStore file) filters strict labels format
  | .shuffle keys force insecure => runShuffle (← openStore file) keys force insecure
  | .path => return .one (.answer (← openStore file).path.toString)
  | .edit => runEdit around (← openStore file)

/-! ### The program -/

/-- What is said about words that cannot be understood. -/
def misuseMessage : String :=
  "error: the arguments do not fit\n\nFor more information, try '--help'.\n"

/-- What is shown where words lead to no command. -/
def Outcome.ofDetour (exported : List (String × String)) (words : List String) :
    Detour → Outcome
  | .help page => ⟨0, program.helpPage exported page, ""⟩
  | .version => ⟨0, program.name ++ " " ++ program.version ++ "\n", ""⟩
  | .misuse => ⟨2, "", if words.isEmpty then program.help exported else misuseMessage⟩

/-- Run the program with the given words. -/
def run (around : Surroundings) (words : List String) (m : Machine) : Outcome × Machine :=
  match Invocation.ofWords m.environment.exported words with
  | .error detour => (.ofDetour m.environment.exported words detour, m)
  | .ok i =>
    let (result, after) := (runCommand around i.file i.command).run m
    (.ofResult i.quiet result, after)

end ConfigScript.CommandLine
