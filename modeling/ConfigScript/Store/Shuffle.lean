import ConfigScript.Store.Basic

/-!
# New keys for the salts of a file

All keys of one run come from the same source: they are drawn here, or if that fails, the service is
asked once and its keys are used.
-/

namespace ConfigScript

/-- What became of each key. -/
structure ShuffleReport where
  succeeded : Nat
  skipped : Nat
  errored : Nat
  skippedKeys : List String
  /-- Keys that were not set, with the reasons. -/
  failures : List (String × String)
  usedRemote : Bool
deriving DecidableEq, Repr

namespace ShuffleReport

/-- The report before any key is looked at. -/
def empty : ShuffleReport := ⟨0, 0, 0, [], [], false⟩

/-- The number of keys that were asked for. -/
def requested (r : ShuffleReport) : Nat := r.succeeded + r.skipped + r.errored

/-- Count one more key that is skipped. -/
def skip (r : ShuffleReport) (key : String) : ShuffleReport :=
  { r with skipped := r.skipped + 1, skippedKeys := r.skippedKeys ++ [key] }

/-- Count one more key that was set. -/
def succeed (r : ShuffleReport) : ShuffleReport := { r with succeeded := r.succeeded + 1 }

/-- Count one more key that was not set. -/
def fail (r : ShuffleReport) (key reason : String) : ShuffleReport :=
  { r with errored := r.errored + 1, failures := r.failures ++ [(key, reason)] }

end ShuffleReport

namespace Store

/-- Sort out the keys that get new values. Names that are no usual salts are skipped and counted unless
`force` holds. -/
def sortOut (force : Bool) : List String → ShuffleReport → List String × ShuffleReport
  | [], report => ([], report)
  | key :: rest, report =>
    if force || Salt.isName key then
      let (targets, report) := sortOut force rest report
      (key :: targets, report)
    else sortOut force rest (report.skip key)

/-- Values for the given keys, and whether they are the service's. -/
def newValues (targets : List String) (insecure : Bool) :
    Operation (List (String × Option String) × Bool) := do
  match ← Operation.drawKeys targets with
  | some keys => return (keys.map fun (name, key) => (name, some key), false)
  | none =>
    let salts ← Operation.fetchSalts insecure
    return (targets.map fun name => (name, Assoc.lookup name salts), true)

/-- Set a constant, and count it. -/
def setCounted (s : Store) (key value : String) (report : ShuffleReport) :
    Operation ShuffleReport :=
  tryCatch
    (do
      let _ ← Operation.change fun env =>
        Edit.setInFile env s.path .const key value.toList .standard
      return report.succeed)
    fun e => return report.fail key e.message

/-- Set one constant after the other. -/
def setAll (s : Store) : List (String × Option String) → ShuffleReport → Operation ShuffleReport
  | [], report => return report
  | (key, none) :: rest, report =>
    s.setAll rest (report.fail key "the remote service did not provide a value")
  | (key, some value) :: rest, report => do s.setAll rest (← s.setCounted key value report)

/-- Give keys new values: the usual salts if none are named. Names that are no usual salts are
skipped unless `force` holds. -/
def shuffle (s : Store) (keys : List String) (force insecure : Bool) :
    Operation ShuffleReport := do
  let requested := if keys.isEmpty then Salt.names else keys
  let (targets, report) := sortOut force requested .empty
  let (values, remote) ← newValues targets insecure
  s.setAll values { report with usedRemote := remote }

end Store

end ConfigScript
