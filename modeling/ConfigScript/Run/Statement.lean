import ConfigScript.Run.Expression
import ConfigScript.Script.Parser

/-!
# Running statements

Statements change a scope. A run may end early, by leaving the file or the whole run, or with an
error; what was done before stays done.

How another file is run is a parameter of the statements, which is missing at the greatest depth.
So statements are run by recursion on the syntax tree, and files by recursion on the depth that is
left.
-/

namespace ConfigScript

/-- How a run goes on behind a statement. -/
inductive Flow where
  | goOn
  /-- Leave the file. -/
  | leave
  /-- End the whole run. -/
  | stop
deriving DecidableEq, Repr

/-- A run against a scope. -/
abbrev Run (α : Type) := ExceptT ScriptError (StateM Scope) α

/-- How to run the source text of a file. -/
abbrev Runner := List Char → Path → Run Flow

/-- The depth of nested files at which a further one is an error. -/
def maxDepth : Nat := 32

/-- The name of files that are never run. -/
def bootstrapName : List Char := "wp-settings.php".toList

namespace Frame

/-- The value of an expression as a step of a run. -/
def value (f : Frame) (e : Expr) : Run Value := ExceptT.lift (f.eval e)

/-- An error at a place in the running file. -/
def error (f : Frame) (s : Span) (fault : Fault) : ScriptError :=
  (ScriptError.atSpan s fault).inFile f.file

/-! ### Assignments -/

/-- The path of keys that indices stand for; `none` if one of them is no key. -/
def keys (f : Frame) : List (Option Expr) → StateM Scope (Option (List (Option Key)))
  | [] => return some []
  | none :: rest => do return (← keys f rest).map (none :: ·)
  | some e :: rest => do
    match (← f.eval e).key? with
    | none => return none
    | some k => return (← keys f rest).map (some k :: ·)

/-- The new value of an assignment, from the old value and the value on the right. -/
def assigned (op : AssignOp) (old : Option Value) (right unknown : Value) : Value :=
  let compute (op : BinaryOp) : Value := (Value.binary? op (old.getD .null) right).getD unknown
  match op with
  | .assign | .coalesce => right
  | .concat => compute .concat
  | .add => compute .add
  | .sub => compute .sub

/-- Run an assignment. -/
def assign (f : Frame) (op : AssignOp) (t : Target) (e : Expr) : StateM Scope Unit := do
  match ← f.keys t.indices with
  | none => return ()
  | some path =>
    let slot := ((← get).var? t.name).getD .null
    let old := Value.lookupPath slot path
    if op == .coalesce && old.any (!·.isNull) then return ()
    else
      let right ← f.eval e
      let new := assigned op old right (f.unknown (t.span.through e.span))
      modify (·.setVariable t.name (Value.setPath slot path new))

/-- The path of keys that indices stand for, where none may be left open. -/
def closedKeys (f : Frame) : List (Option Expr) → StateM Scope (Option (List Key))
  | [] => return some []
  | none :: _ => return none
  | some e :: rest => do
    match (← f.eval e).key? with
    | none => return none
    | some k => return (← closedKeys f rest).map (k :: ·)

/-- Drop a variable or an element of one. -/
def unset (f : Frame) (t : Target) : StateM Scope Unit := do
  if t.indices.isEmpty then modify (·.unsetVariable t.name)
  else
    match ← f.closedKeys t.indices with
    | none => return ()
    | some path =>
      match (← get).var? t.name with
      | none => return ()
      | some slot => modify (·.setVariable t.name (slot.removePath path))

/-- Define the constants of a declaration. -/
def declare (f : Frame) : List ConstItem → StateM Scope Unit
  | [] => return ()
  | item :: items => do
    let v ← f.eval item.value
    let _ ← modifyGet fun s => s.define item.name v
    declare f items

/-! ### Other files -/

/-- The file at a path and its canonical path. -/
def locate (f : Frame) (path : Path) : Except IoFault (Path × Content) := do
  let resolved ← f.environment.canonical path
  let content ← f.environment.read resolved
  return (resolved, content)

/-- Run the file that is found. -/
def runFound (f : Frame) (runner : Option Runner) (s : Span) (resolved : Path)
    (content : Content) : Run Flow :=
  match runner, content with
  | none, _ => throw (f.error s .includeDepthExceeded)
  | some _, .binary _ => throw ⟨some resolved, 1, 1, .invalidUtf8⟩
  | some run, .text source => do
    modify (·.markLoaded resolved)
    match ← run source resolved with
    | .stop => return .stop
    | _ => return .goOn

/-- Run the file at `path`. The bootstrap file is left alone, and so is a file that is loaded
already if it is to be loaded once. -/
def load (f : Frame) (runner : Option Runner) (s : Span) (kind : IncludeKind) (path : Value) :
    Run Flow :=
  if path.isOpaque then return .goOn
  else do
    let candidate := f.directory.join (.ofString path.toText)
    if candidate.fileName? == some bootstrapName then return .goOn
    else match f.locate candidate with
      | .error _ =>
        if kind.isRequired then throw (f.error s (.missingRequire candidate)) else return .goOn
      | .ok (resolved, content) =>
        if kind.isOnce && (← get).isLoaded resolved then return .goOn
        else f.runFound runner s resolved content

/-! ### Statements -/

mutual

/-- Run a statement. -/
def exec (f : Frame) (runner : Option Runner) : Stmt → Run Flow
  | .expr _ e => do
    let _ ← f.value e
    return .goOn
  | .assign _ op t e => do
    ExceptT.lift (f.assign op t e)
    return .goOn
  | .const _ items => do
    ExceptT.lift (f.declare items)
    return .goOn
  | .load s kind path => do f.load runner s kind (← f.value path)
  | .conditional _ branches none => choose f runner (return .goOn) branches
  | .conditional _ branches (some body) => choose f runner (execAll f runner body) branches
  | .block _ body => execAll f runner body
  | .unset _ ts => do
    ExceptT.lift (ts.forM f.unset)
    return .goOn
  | .ret _ => return .leave
  | .exit _ => return .stop
  -- All variables are global already, and texts and skipped statements do nothing.
  | .global _ _ | .inlineHtml _ | .opaqueStmt _ => return .goOn

/-- Run statements in order, until one ends the file or the run. -/
def execAll (f : Frame) (runner : Option Runner) : List Stmt → Run Flow
  | [] => return .goOn
  | s :: ss => do
    match ← exec f runner s with
    | .goOn => execAll f runner ss
    | flow => return flow

/-- Run the first branch whose condition holds, or else `otherwise`. Behind a condition without a
known value nothing is run. -/
def choose (f : Frame) (runner : Option Runner) (otherwise : Run Flow) : List Branch → Run Flow
  | [] => otherwise
  | .mk condition body :: rest => do
    let c ← f.value condition
    -- Neither this branch nor any other can be told to be the right one.
    if c.isOpaque then return .goOn
    else if c.isTruthy then execAll f runner body
    else choose f runner otherwise rest

end

end Frame

/-! ### Files -/

/-- Run a source text as the file `file`. -/
def runWith (env : Environment) (runner : Option Runner) : Runner := fun source file => do
  match Script.parse source with
  | .error e => throw (e.inFile file)
  | .ok body => Frame.execAll ⟨env, source, file⟩ runner body

/-- Run a source text below which files may nest `depth` levels deep. -/
def runNested (env : Environment) : Nat → Runner
  | 0 => runWith env none
  | depth + 1 => runWith env (some (runNested env depth))

/-- Run a source text. -/
def runSource (env : Environment) (source : List Char) (file : Path) : Run Unit := do
  let _ ← runNested env maxDepth source file

end ConfigScript
