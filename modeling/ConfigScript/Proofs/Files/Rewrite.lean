import ConfigScript.Builtin
import ConfigScript.Proofs.Files.Held

/-!
# Rewriting a file

A file that gets another text is the same file to whoever does not look inside: every path leads where
it led before, and to a file where it led to a file (`Environment.Holds.alike`). So a script that runs
afterwards cannot tell the difference (`Environment.Alike.call`).
-/

namespace ConfigScript

namespace FileTree

theorem get?_directory (es : List (List Char × FileTree)) (n : List Char)
    (rest : List (List Char)) :
    (directory es).get? (n :: rest) = (Assoc.lookup n es).bind fun t ↦ t.get? rest := rfl

/-- Where a file takes the place of a file, files and directories stay what they are. -/
theorem isFile_put {t : FileTree} {place : List (List Char)} {old : Content}
    (there : t.get? place = some (file old)) (new : Content) (other : List (List Char)) :
    ((t.put place (file new)).get? other).map isFile = (t.get? other).map isFile := by
  induction place generalizing t other with
  | nil =>
    obtain rfl := Option.some.inj there
    cases other <;> rfl
  | cons n place ih =>
    cases t with
    | file c => cases there
    | directory es =>
      rw [get?_directory] at there
      obtain ⟨child, found, below⟩ := Option.bind_eq_some_iff.1 there
      rw [put, entries_directory, found, Option.getD_some]
      cases other with
      | nil => rfl
      | cons m other =>
        rw [get?_directory, get?_directory]
        by_cases same : m = n
        · subst same
          rw [Assoc.lookup_insert_self, found, Option.bind_some, Option.bind_some]
          exact ih below other
        · rw [Assoc.lookup_insert_of_ne same]

end FileTree

namespace Environment

variable {env env' : Environment} {path : Path} {text new : List Char}

/-- Environments with the same files and directories, whatever the files hold. -/
structure Alike (env env' : Environment) : Prop where
  isFile : ∀ place, (env.files.get? place).map FileTree.isFile =
    (env'.files.get? place).map FileTree.isFile
  workingDirectory : env.workingDirectory = env'.workingDirectory
  exported : env.exported = env'.exported

namespace Alike

protected theorem refl (env : Environment) : env.Alike env := ⟨fun _ ↦ rfl, rfl, rfl⟩

theorem isSome (h : env.Alike env') (place : List (List Char)) :
    (env.files.get? place).isSome = (env'.files.get? place).isSome := by
  rw [← Option.isSome_map (f := FileTree.isFile), h.isFile, Option.isSome_map]

theorem hasDirectory (h : env.Alike env') (place : List (List Char)) :
    env.files.hasDirectory place = env'.files.hasDirectory place := by
  have any : ∀ o : Option FileTree, o.any (fun t ↦ !t.isFile) = (o.map FileTree.isFile).any (!·) := by
    rintro (_ | _) <;> rfl
  rw [FileTree.hasDirectory, FileTree.hasDirectory, any, any, h.isFile]

/-- Environments with the same directories are walked through in the same way. -/
theorem follow (h : env.Alike env') (place : List (List Char)) (pieces : List (List Char)) :
    Environment.follow env.files place pieces = Environment.follow env'.files place pieces := by
  induction pieces generalizing place with
  | nil => rw [Environment.follow, Environment.follow, h.isSome]
  | cons piece rest ih =>
    rw [follow_cons, follow_cons, h.hasDirectory, h.isSome, ih, ih, ih]

/-- Every path leads to the same place. -/
theorem resolve (h : env.Alike env') (path : Path) : env.resolve path = env'.resolve path := by
  rw [Environment.resolve, Environment.resolve, resolvePieces, resolvePieces, h.follow,
    h.workingDirectory]

theorem canonical (h : env.Alike env') (path : Path) : env.canonical path = env'.canonical path := by
  rw [Environment.canonical, Environment.canonical, h.resolve]

/-- Where a path leads to is a file in both environments or in none. -/
theorem find? (h : env.Alike env') (path : Path) :
    (env.find? path).map FileTree.isFile = (env'.find? path).map FileTree.isFile := by
  rw [Environment.find?, Environment.find?, h.resolve]
  cases env'.resolve path with
  | error e => rfl
  | ok place => exact h.isFile place

theorem pathExists (h : env.Alike env') : env.pathExists = env'.pathExists := by
  funext path
  rw [Environment.pathExists, Environment.pathExists, ← Option.isSome_map (f := FileTree.isFile),
    h.find?, Option.isSome_map]

theorem isFile_eq (h : env.Alike env') : env.isFile = env'.isFile := by
  funext path
  have any : ∀ o : Option FileTree, o.any FileTree.isFile = (o.map FileTree.isFile).any id := by
    rintro (_ | _) <;> rfl
  rw [Environment.isFile, Environment.isFile, any, any, h.find?]

theorem isDirectory (h : env.Alike env') : env.isDirectory = env'.isDirectory := by
  funext path
  have any : ∀ o : Option FileTree, o.any (fun t ↦ !t.isFile) = (o.map FileTree.isFile).any (!·) := by
    rintro (_ | _) <;> rfl
  rw [Environment.isDirectory, Environment.isDirectory, any, any, h.find?]

/-- The functions of the language answer the same. -/
theorem call (h : env.Alike env') (s : Scope) (name : String) (vs : List Value) :
    Builtin.call env s name vs = Builtin.call env' s name vs := by
  unfold Builtin.call
  rw [h.pathExists, h.isFile_eq, h.isDirectory, h.exported]

end Alike

/-- Writing another text to a file leaves everything else as it was. -/
theorem Holds.alike (h : env.Holds path text) (written : env.write path (.text new) = .ok env') :
    env.Alike env' := by
  obtain ⟨stem, name, writable, there⟩ := h
  rw [writable.write] at written
  obtain rfl := Except.ok.inj written
  exact ⟨fun place ↦ (FileTree.isFile_put there _ place).symm, rfl, rfl⟩

end Environment

end ConfigScript
