import ConfigScript.Proofs.Files.Write

/-!
# Files that are held

A text is held at a path if it is there and may be replaced there. Writing a text makes it held
(`Environment.exists_held`), and writing where a text is held succeeds and changes nothing but that
text (`Environment.Holds.write`).
-/

namespace ConfigScript.Environment

/-- A text stands at the path and may be replaced. -/
def Holds (env : Environment) (path : Path) (text : List Char) : Prop :=
  ∃ stem name, env.Writable path stem name ∧
    env.files.get? (stem ++ [name]) = some (.file (.text text))

/-- The absolute path of what the path leads to leads there as well. -/
def IsReached (env : Environment) (path : Path) : Prop :=
  ∀ place, env.resolve path = .ok place → env.resolve (pathOf place) = .ok place

variable {env env' : Environment} {path : Path} {text : List Char}

/-- A file is reached if its absolute path is not too long and the names of the working directory are
such as a directory may hold. -/
theorem Holds.isReached (h : env.Holds path text)
    (origin : ∀ n ∈ env.origin path, IsLegal n)
    (short : ∀ place, env.resolve path = .ok place → isPathTooLong (pathOf place) = false) :
    env.IsReached path := by
  obtain ⟨stem, name, writable, there⟩ := h
  have present : (env.files.get? (stem ++ [name])).isSome := by simp [there]
  intro place hp
  obtain rfl := Except.ok.inj (hp.symm.trans (writable.resolve present))
  exact resolve_pathOf (writable.legal origin) (by simp) (short _ hp) present

/-- What is held can be read. -/
theorem Holds.readText (h : env.Holds path text) : env.readText path = .ok text := by
  obtain ⟨stem, name, writable, there⟩ := h
  have present : (env.files.get? (stem ++ [name])).isSome := by simp [there]
  simp only [Environment.readText, Environment.read, writable.resolve present, bind, Except.bind,
    there, pure, Except.pure]

/-- What is held is found. -/
theorem Holds.find? (h : env.Holds path text) : env.find? path = some (.file (.text text)) := by
  obtain ⟨stem, name, writable, there⟩ := h
  have present : (env.files.get? (stem ++ [name])).isSome := by simp [there]
  rw [Environment.find?, writable.resolve present]
  exact there

/-- What is held is there. -/
theorem Holds.pathExists (h : env.Holds path text) : env.pathExists path = true := by
  rw [Environment.pathExists, h.find?]
  rfl

/-- What is held and reached can be read under its absolute path. -/
theorem Holds.canonical (h : env.Holds path text) (reached : env.IsReached path) :
    ∃ resolved, env.canonical path = .ok resolved ∧ env.read resolved = .ok (.text text) := by
  obtain ⟨stem, name, writable, there⟩ := h
  have present : (env.files.get? (stem ++ [name])).isSome := by simp [there]
  have place := writable.resolve present
  refine ⟨pathOf (stem ++ [name]), by simp [Environment.canonical, place, Except.map], ?_⟩
  simp only [Environment.read, reached _ place, bind, Except.bind, there, pure, Except.pure]

/-- A text that was written is held. -/
theorem exists_held (h : env.write path (.text text) = .ok env') : env'.Holds path text := by
  obtain ⟨stem, name, writable, rfl⟩ := exists_writable h
  exact ⟨stem, name, writable.put _, FileTree.get?_put_self _ _ _⟩

/-- Where a text is held, another one can be written; what the path leads to stays the same. -/
theorem Holds.write (h : env.Holds path text) (new : List Char) :
    ∃ env', env.write path (.text new) = .ok env' ∧ env'.Holds path new ∧
      (env.IsReached path → env'.IsReached path) := by
  obtain ⟨stem, name, writable, there⟩ := h
  have present : (env.files.get? (stem ++ [name])).isSome := by simp [there]
  have self := FileTree.get?_put_self env.files (stem ++ [name]) (.file (.text new))
  refine ⟨_, writable.write _, ⟨stem, name, writable.put _, self⟩, fun reached place hp ↦ ?_⟩
  have after := (writable.put (.text new)).resolve (by rw [self]; rfl)
  obtain rfl := Except.ok.inj (hp.symm.trans after)
  exact resolvePieces_congr (reached _ (writable.resolve present))
    (FileTree.hasDirectory_put writable.directory writable.free _) (by rw [self]; rfl)

/-! ### A single file -/

/-- An environment without files. -/
def bare : Environment := ⟨.directory [], [], []⟩

/-- In the root directory a file may be made. -/
theorem writable_bare : bare.Writable ⟨['/', 'a']⟩ [] ['a'] := by
  have parent : Environment.directoryOf ⟨['/', 'a']⟩ = ⟨['/']⟩ := by
    simp [Environment.directoryOf, Path.parent?, Path.reversedBody, Path.lead, Path.dropIdle,
      Path.dropPiece, Path.lastPiece]
  refine ⟨rfl, rfl, ⟨by decide, by decide, by decide⟩, by decide, ⟨[], ?_, rfl⟩, rfl, rfl⟩
  rw [parent]
  rfl

/-- An environment with a single file. -/
def single (text : List Char) : Environment :=
  { bare with files := bare.files.put [['a']] (.file (.text text)) }

theorem holds_single (text : List Char) : (single text).Holds ⟨['/', 'a']⟩ text :=
  ⟨[], ['a'], writable_bare.put _, FileTree.get?_put_self _ _ _⟩

theorem write_single (text new : List Char) :
    (single text).write ⟨['/', 'a']⟩ (.text new) = .ok (single new) :=
  (writable_bare.put _).write _

end ConfigScript.Environment
