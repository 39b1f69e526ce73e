import ConfigScript.CommandLine.Run
import ConfigScript.CommandLine.Survey
import Std.Data.HashSet

/-!
# The program

The outer layer: the files and variables that the run may ask about are collected, the run is made,
the files that it changed are written, and what it shows is printed. No other program can be started
and no salt service reached, which the run is told when it asks.
-/

namespace ConfigScript.CommandLine

/-- What stands at a path; nothing if it cannot be read. -/
def look (path : Path) : IO (Option FileTree) := do
  try
    let bytes ← IO.FS.readBinFile path.toString
    return some (.file (Content.ofBytes bytes))
  catch
    | .inappropriateType _ 21 _ => return some (.directory [])
    | _ => return none

/-- The environment variables that are set, among the given names. -/
def lookVariables (names : List String) : IO (List (String × String)) :=
  names.filterMapM fun name => return (← IO.getEnv name).map (name, ·)

/-- Record what stands at the given paths and at those that become possible by it. -/
partial def explore (env : Environment) (survey : Survey) (seen : Std.HashSet String) :
    List Path → IO Environment
  | [] => return env
  | path :: pending => do
    let place := placeOf env.workingDirectory path
    if path.text.isEmpty || !isReadable place || seen.contains path.toString then
      explore env survey seen pending
    else
      let seen := seen.insert path.toString
      match ← look path with
      | none => explore env survey seen pending
      | some found =>
        let (after, more) := survey.extendFound place found
        let exported ← lookVariables (after.mentions.drop survey.mentions.length)
        let env := record env path found
        explore { env with exported := env.exported ++ exported } after seen (more ++ pending)

/-- The text of the input. -/
def readInput : IO (Except IoFault (List Char)) := do
  match Content.ofBytes (← (← IO.getStdin).readBinToEnd) with
  | .text cs => return .ok cs
  | .binary _ => return .error .notText

/-- Random bytes that are enough for keys with the given number of names. -/
def readEntropy (names : Nat) : IO Salt.Entropy := do
  let supply := 16 * (names + 16)
  let bytes ← IO.getRandomBytes (Salt.blockSize * supply).toUSize
  return ⟨fun i => bytes.data.getD i 0, 0, supply, "all random bytes are used up"⟩

/-- Write a file that changed, or remove it. A file is replaced as a whole. -/
def writeChange (change : List (List Char) × Option Content) : IO Unit := do
  let path := (Environment.pathOf change.1).toString
  match change.2 with
  | some content =>
    let fresh := path ++ ".new"
    IO.FS.writeBinFile fresh content.toBytes
    IO.FS.rename fresh path
  | none => IO.FS.removeFile path

/-- The environment of the run. -/
def readEnvironment (words : List String) : IO Environment := do
  let directory : Path := .ofString (← IO.currentDir).toString
  let exported ← lookVariables usualVariables
  let place := placeOf [] directory
  let env : Environment := ⟨recordDirectory (.directory []) place, place, exported⟩
  match Invocation.ofWords exported words with
  | .error _ => return env
  | .ok i => explore env ⟨[directory], []⟩ {} (i.places directory)

/-- The input, if the run reads it. -/
def inputFor (env : Environment) (words : List String) : IO (Except IoFault (List Char)) :=
  match Invocation.ofWords env.exported words with
  | .ok i => if i.readsInput then readInput else return .ok []
  | .error _ => return .ok []

/-- Run the program with the given words; the number is its exit code. -/
def runProgram (words : List String) : IO UInt32 := do
  let env ← readEnvironment words
  let around : Surroundings :=
    ⟨← inputFor env words, fun _ _ _ => .error "programs cannot be started from here"⟩
  let service : SaltService := ⟨none, none, "there is no connection"⟩
  let (outcome, after) := run around words ⟨env, ← readEntropy words.length, service, 0⟩
  (FileTree.changes env.files after.environment.files).forM writeChange
  IO.print outcome.out
  IO.eprint outcome.err
  return outcome.code.toUInt32

end ConfigScript.CommandLine

def main (words : List String) : IO UInt32 := ConfigScript.CommandLine.runProgram words
