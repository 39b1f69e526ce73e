import ConfigScript.Edit.File
import ConfigScript.Store.Machine
import ConfigScript.Store.Suggestion

/-!
# The store of a configuration file

A store gives access to the entries of one file: what it defines is read by running it, and changed
by editing its text. A name may stand for a constant and for a variable; an operation that does not
say which one is meant fails if there are both.
-/

namespace ConfigScript

/-- Which namespaces a name is looked up in. -/
inductive TypeFilter where
  | all
  | only (kind : EntryKind)
deriving DecidableEq, Repr

namespace TypeFilter

/-- Whether entries of a namespace are looked at. Loaded files never are, unless asked for. -/
def admits : TypeFilter → EntryKind → Bool
  | all, kind => kind != .inclusion
  | only k, kind => kind == k

/-- The namespace that is asked for. -/
def kind? : TypeFilter → Option EntryKind
  | all => none
  | only kind => some kind

end TypeFilter

/-- A configuration file and how it is read. -/
structure Store where
  path : Path
  reader : Reader

/-- What setting an entry did. -/
structure SetOutcome where
  kind : EntryKind
  added : Bool
  changed : Bool
  raw : Bool
deriving DecidableEq, Repr

namespace Store

/-- The name of the file for messages. -/
def fileName (s : Store) : String := String.ofList s.path.displayName

/-- Open the store of an existing file. -/
def openFile (path : Path) (reader : Reader) : Operation Store :=
  Operation.query fun env =>
    if env.isFile path then .ok ⟨path, reader⟩ else .error (.configNotFound path)

/-! ### Reading -/

/-- All entries of the file. -/
def entries (s : Store) : Operation (List Entry) :=
  Operation.query fun env => s.reader.read env s.path

/-- The entry of a name. -/
def get (s : Store) (name : String) (filter : TypeFilter) : Operation Entry := do
  let es ← s.entries
  match es.filter fun e => e.name == name && filter.admits e.kind with
  | [e] => return e
  | [] => throw (.entryNotFound filter.kind? name s.fileName (Suggestion.suggest name es))
  | _ => throw (.ambiguous name s.fileName)

/-- Whether the value of an entry counts as true. -/
def isTrue (s : Store) (name : String) (filter : TypeFilter) : Operation Bool := do
  return (← s.get name filter).value.isTruthy

/-- Whether a name passes a filter: by being equal to it, or by containing it. -/
def passes (strict : Bool) (name filter : String) : Bool :=
  if strict then name == filter else Text.contains filter.toList name.toList

/-- The entries whose names pass one of the filters; all entries without filters. -/
def list (s : Store) (filters : List String) (strict : Bool) : Operation (List Entry) := do
  if strict && filters.isEmpty then throw .missingFilter
  let es ← s.entries
  return if filters.isEmpty then es else es.filter fun e => filters.any (passes strict e.name)

/-! ### Editing -/

/-- The namespace in which a name is edited, and whether it is defined there. -/
def locate (s : Store) (name : String) (filter : TypeFilter) : Operation (EntryKind × Bool) := do
  match filter with
  | .only kind =>
    let there ← Operation.query fun env => Edit.fileDefines env s.path kind name
    return (kind, there)
  | .all =>
    let isConstant ← Operation.query fun env => Edit.fileDefines env s.path .const name
    let isVariable ← Operation.query fun env => Edit.fileDefines env s.path .var name
    match isConstant, isVariable with
    | true, true => throw (.ambiguous name s.fileName)
    | false, true => return (.var, true)
    | there, false => return (.const, there)

/-- Whether the file defines a name anywhere. -/
def has (s : Store) (name : String) (filter : TypeFilter) : Operation Bool := do
  return (← s.locate name filter).2

/-- Set an entry. A name that is not defined becomes a constant unless a namespace is asked for. -/
def set (s : Store) (name : String) (value : List Char) (filter : TypeFilter)
    (o : Edit.Options) : Operation SetOutcome := do
  let (kind, there) ← s.locate name filter
  if !there && !o.add then throw (.notFoundWithoutAdd filter.kind? name s.fileName)
  let changed ← Operation.change fun env => Edit.setInFile env s.path kind name value o
  return ⟨kind, !there, changed, o.raw⟩

/-- The name to suggest for one that is not defined, if the file can be read. -/
def suggestion (s : Store) (name : String) : Operation (Option String) := do
  tryCatch (do return Suggestion.suggest name (← s.entries)) fun _ => return none

/-- Remove an entry. -/
def delete (s : Store) (name : String) (filter : TypeFilter) : Operation EntryKind := do
  let (kind, there) ← s.locate name filter
  if !there then
    throw (.entryNotFound filter.kind? name s.fileName (← s.suggestion name))
  let _ ← Operation.change fun env => Edit.removeFromFile env s.path kind name
  return kind

end Store

end ConfigScript
