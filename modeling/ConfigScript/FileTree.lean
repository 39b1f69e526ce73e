import ConfigScript.Assoc

/-!
# Trees of files

A tree of directories and files, without links. A place in it is the list of names that leads there
from the root. The view is `get?`: putting something at a place makes it found there.
-/

namespace ConfigScript

/-- What a file holds: a text, or bytes that are no text. -/
inductive Content where
  | text (cs : List Char)
  | binary (bytes : List UInt8)
deriving DecidableEq, Repr

namespace Content

/-- What a file with the given bytes holds. -/
def ofBytes (bytes : ByteArray) : Content :=
  match String.fromUTF8? bytes with
  | some s => text s.toList
  | none => binary bytes.data.toList

/-- The bytes of a file. -/
def toBytes : Content → ByteArray
  | text cs => (String.ofList cs).toUTF8
  | binary bytes => ⟨bytes.toArray⟩

end Content

/-- A file, or a directory with its entries. -/
inductive FileTree where
  | file (content : Content)
  | directory (entries : List (List Char × FileTree))
deriving Repr

instance : Inhabited FileTree := ⟨.directory []⟩

namespace FileTree

/-- Whether the tree is a single file. -/
def isFile : FileTree → Bool
  | file _ => true
  | directory _ => false

/-- The entries of a directory; a file has none. -/
def entries : FileTree → List (List Char × FileTree)
  | file _ => []
  | directory es => es

/-- What stands at a place. -/
def get? (t : FileTree) : List (List Char) → Option FileTree
  | [] => some t
  | name :: rest => (Assoc.lookup name t.entries).bind fun child => child.get? rest

/-- Put `new` at a place. What is missing on the way, or is a file, becomes a directory. -/
def put (t : FileTree) (place : List (List Char)) (new : FileTree) : FileTree :=
  match place with
  | [] => new
  | name :: rest =>
    let child := (Assoc.lookup name t.entries).getD (directory [])
    directory (Assoc.insert name (child.put rest new) t.entries)

/-- Drop what stands at a place other than the root. -/
def erase (t : FileTree) (place : List (List Char)) : FileTree :=
  match place with
  | [] => t
  | [name] => directory (Assoc.erase name t.entries)
  | name :: rest =>
    match Assoc.lookup name t.entries with
    | some child => directory (Assoc.insert name (child.erase rest) t.entries)
    | none => t

mutual

/-- All files with their places. -/
def files : FileTree → List (List (List Char) × Content)
  | file c => [([], c)]
  | directory es => entryFiles es

/-- All files below the entries of a directory. -/
def entryFiles : List (List Char × FileTree) → List (List (List Char) × Content)
  | [] => []
  | (name, t) :: es => (files t).map (fun (place, c) => (name :: place, c)) ++ entryFiles es

end

/-- Whether a file with the given content stands at a place. -/
def holds (t : FileTree) (place : List (List Char)) (content : Content) : Bool :=
  match t.get? place with
  | some (file c) => c == content
  | _ => false

/-- The files that are new or differ in `after`, with their content, and those that are gone. -/
def changes (before after : FileTree) : List (List (List Char) × Option Content) :=
  (after.files.filter fun (place, c) => !before.holds place c).map
      (fun (place, c) => (place, some c)) ++
    (before.files.filter fun (place, _) => !(after.get? place).any isFile).map
      fun (place, _) => (place, none)

@[simp]
theorem entries_directory (es : List (List Char × FileTree)) : (directory es).entries = es := rfl

@[simp]
theorem get?_nil (t : FileTree) : t.get? [] = some t := rfl

@[simp]
theorem get?_put_self (t : FileTree) (place : List (List Char)) (new : FileTree) :
    (t.put place new).get? place = some new := by
  induction place generalizing t with
  | nil => rfl
  | cons name rest ih => simp [put, get?, ih]

end FileTree

end ConfigScript
