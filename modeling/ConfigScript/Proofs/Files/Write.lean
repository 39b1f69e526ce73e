import ConfigScript.Proofs.Files.Follow
import ConfigScript.Proofs.Text.Pieces

/-!
# Writing a file and finding it again

`Writable env path stem name` says that a file may be written at `path`, and that it then stands as
`name` in the directory `stem`. It speaks of directories only, so it survives every such write
(`Writable.put`). A file that was written is found under its path, and under the absolute path of
its place, if the names on the way are ones that a directory may hold.
-/

namespace ConfigScript

namespace Environment

/-- A path that may be followed. -/
structure CanFollow (path : Path) : Prop where
  notEmpty : path.text ≠ []
  noNul : '\x00' ∉ path.text
  short : isPathTooLong path = false

/-- Where a path is followed from: the working directory, unless the path begins at the root. -/
def origin (env : Environment) (path : Path) : List (List Char) :=
  if path.isAbsolute then [] else env.workingDirectory

/-- A path is resolved if it can be followed at all, and then by following its pieces. -/
theorem resolvePieces_eq_ok {env : Environment} {path : Path} {pieces place : List (List Char)} :
    env.resolvePieces path pieces = .ok place ↔
      CanFollow path ∧ follow env.files (env.origin path) pieces = .ok place := by
  constructor
  · intro h
    rw [resolvePieces] at h
    split at h
    · cases h
    · rename_i notEmpty
      split at h
      · cases h
      · rename_i noNul
        split at h
        · cases h
        · rename_i short
          exact ⟨⟨by simpa using notEmpty, by simpa using noNul, by simpa using short⟩, h⟩
  · rintro ⟨⟨notEmpty, noNul, short⟩, h⟩
    rw [resolvePieces, if_neg (by simpa using notEmpty), if_neg (by simpa using noNul),
      if_neg (by simp [short])]
    exact h

/-- What a path leads to is there. -/
theorem get?_of_resolve {env : Environment} {path : Path} {place : List (List Char)}
    (h : env.resolve path = .ok place) : (env.files.get? place).isSome :=
  get?_of_follow (resolvePieces_eq_ok.1 h).2

/-- A file may be written at `path`, and then stands as `entry` in the directory `place`. -/
structure Writable (env : Environment) (path : Path) (place : List (List Char))
    (entry : List Char) : Prop where
  /-- The pieces of the path in front of the last one lead to the directory. -/
  stem : env.resolvePieces path (target path).1 = .ok place
  name : (target path).2 = entry
  isName : IsName entry
  notSlash : path.text.getLast? ≠ some '/'
  /-- The directory in which the file is prepared. -/
  workshop : ∃ shop, env.resolve (directoryOf path) = .ok shop ∧ env.files.hasDirectory shop
  directory : env.files.hasDirectory place
  free : env.files.hasDirectory (place ++ [entry]) = false

variable {env : Environment} {path : Path} {stem : List (List Char)} {name : List Char}

/-- Below a directory, a place is a directory if its entry is one. -/
theorem hasDirectory_concat {files : FileTree} {entries : List (List Char × FileTree)}
    (h : files.get? stem = some (.directory entries)) (name : List Char) :
    files.hasDirectory (stem ++ [name]) = (Assoc.lookup name entries).any fun t ↦ !t.isFile := by
  induction stem generalizing files with
  | nil =>
    obtain rfl : files = .directory entries := by simpa using h
    rw [List.nil_append, FileTree.hasDirectory_cons]
    rfl
  | cons n stem ih =>
    cases files with
    | file c => cases h
    | directory es =>
      rw [List.cons_append, FileTree.hasDirectory_cons]
      rw [FileTree.get?, FileTree.entries_directory] at h
      cases hl : Assoc.lookup n es with
      | none => rw [hl] at h; cases h
      | some child =>
        rw [hl] at h
        exact ih h

/-- Where the pieces of a path lead does not change while the directories stay. -/
theorem resolvePieces_congr {files : FileTree} {pieces : List (List Char)}
    (h : env.resolvePieces path pieces = .ok stem)
    (same : ∀ q, files.hasDirectory q = env.files.hasDirectory q)
    (there : (files.get? stem).isSome) :
    ({ env with files := files } : Environment).resolvePieces path pieces = .ok stem := by
  obtain ⟨can, h⟩ := resolvePieces_eq_ok.1 h
  exact resolvePieces_eq_ok.2 ⟨can, follow_congr h same there⟩

/-- The pieces of a path that does not end with a separator. -/
theorem splitOn_target (notEmpty : path.text ≠ []) (notSlash : path.text.getLast? ≠ some '/') :
    Text.splitOn '/' path.text = (target path).1 ++ [(target path).2] := by
  obtain ⟨before, last, heq, hlast⟩ := Text.exists_splitOn_concat '/' path.text
  have some : last.isEmpty = false := by
    cases last with
    | nil =>
      rcases hlast rfl with h | h
      · exact absurd h notEmpty
      · exact absurd h notSlash
    | cons c cs => rfl
  have drop : (before ++ [last]).reverse.dropWhile (·.isEmpty) = last :: before.reverse := by
    rw [List.reverse_concat, List.dropWhile_cons_of_neg (by simp [some])]
  rw [target, heq, drop]
  simp

theorem isName_iff : IsName name ↔
    (isIdle name || name == ['.', '.']) = false ∧ isNameTooLong name = false := by
  simp [IsName, and_assoc]

/-- A file is written where it may be written. -/
theorem Writable.write (h : env.Writable path stem name) (content : Content) :
    env.write path content =
      .ok { env with files := env.files.put (stem ++ [name]) (.file content) } := by
  obtain ⟨place, workshop, isDirectory⟩ := h.workshop
  obtain ⟨shop, hshop⟩ := FileTree.hasDirectory_iff.1 isDirectory
  obtain ⟨entries, hentries⟩ := FileTree.hasDirectory_iff.1 h.directory
  have free := h.free
  rw [hasDirectory_concat hentries] at free
  obtain ⟨legal, short⟩ := isName_iff.1 h.isName
  have notSlash : (path.text.getLast? == some '/') = false := beq_eq_false_iff_ne.2 h.notSlash
  have shopIsDirectory : (FileTree.directory shop).isFile = false := rfl
  simp only [Environment.write, bind, Except.bind, workshop, hshop, Option.any_some,
    shopIsDirectory, Bool.false_eq_true, if_false, h.stem, h.name, hentries, legal, short,
    notSlash, free, pure, Except.pure]

/-- Whatever is written may be written. -/
theorem exists_writable {content : Content} {env' : Environment}
    (h : env.write path content = .ok env') :
    ∃ stem name, env.Writable path stem name ∧
      env' = { env with files := env.files.put (stem ++ [name]) (.file content) } := by
  rw [Environment.write] at h
  cases workshop : env.resolve (directoryOf path) with
  | error e => rw [workshop] at h; cases h
  | ok shop =>
    rw [workshop] at h
    have thrown : ∀ (e : IoFault) (f : PUnit → Except IoFault Environment),
        ((throw e : Except IoFault PUnit) >>= f) = .error e := fun _ _ ↦ rfl
    have bound : ∀ f : List (List Char) → Except IoFault Environment,
        ((Except.ok shop : Except IoFault _) >>= f) = f shop := fun _ ↦ rfl
    simp only [thrown, bound] at h
    -- The checks of a write, in their order.
    split at h
    · cases h
    · rename_i notFile
      cases stem : env.resolvePieces path (target path).1 with
      | error e => rw [stem] at h; cases h
      | ok place =>
        simp only [stem, bind, Except.bind] at h
        split at h
        · rename_i entries hentries
          split at h
          · cases h
          · rename_i legal
            split at h
            · cases h
            · rename_i short
              split at h
              · cases h
              · rename_i slash
                split at h
                · cases h
                · rename_i free
                  injection h with h
                  refine ⟨place, (target path).2, ?_, h.symm⟩
                  rw [Bool.not_eq_true] at legal short free
                  refine ⟨stem, rfl, isName_iff.2 ⟨legal, short⟩, fun hs ↦ slash (by simp [hs]),
                    ⟨shop, workshop, ?_⟩, FileTree.hasDirectory_iff.2 ⟨entries, hentries⟩,
                    (hasDirectory_concat hentries _).trans free⟩
                  obtain ⟨t, ht⟩ := Option.isSome_iff_exists.1 (get?_of_resolve workshop)
                  rw [ht] at notFile
                  rw [FileTree.hasDirectory, ht]
                  simpa using notFile
        · cases h

/-- Writing a file keeps every file writable where it was. -/
theorem Writable.put {env : Environment} {path : Path} {stem : List (List Char)} {name : List Char}
    (h : env.Writable path stem name) (content : Content) :
    ({ env with files := env.files.put (stem ++ [name]) (.file content) } : Environment).Writable
      path stem name := by
  have same := FileTree.hasDirectory_put h.directory h.free content
  have stays : ∀ q, env.files.hasDirectory q →
      ((env.files.put (stem ++ [name]) (.file content)).get? q).isSome := by
    intro q hq
    obtain ⟨es, he⟩ := FileTree.hasDirectory_iff.1 ((same q).trans hq)
    rw [he]
    rfl
  obtain ⟨shop, workshop, isDirectory⟩ := h.workshop
  exact ⟨resolvePieces_congr h.stem same (stays _ h.directory), h.name, h.isName, h.notSlash,
    ⟨shop, resolvePieces_congr workshop same (stays _ isDirectory), (same shop).trans isDirectory⟩,
    (same stem).trans h.directory, (same _).trans h.free⟩

/-! ### Finding what was written -/

/-- A name that a directory may hold. -/
structure IsLegal (name : List Char) : Prop where
  isName : IsName name
  noSlash : '/' ∉ name
  noNul : '\x00' ∉ name

/-- What stands where a file may be written is found under the path. -/
theorem Writable.resolve (h : env.Writable path stem name)
    (there : (env.files.get? (stem ++ [name])).isSome) : env.resolve path = .ok (stem ++ [name]) := by
  obtain ⟨can, hstem⟩ := resolvePieces_eq_ok.1 h.stem
  have split := splitOn_target can.notEmpty h.notSlash
  rw [h.name] at split
  refine resolvePieces_eq_ok.2 ⟨can, ?_⟩
  rw [split, follow_append hstem]
  exact follow_names stem (by simpa using h.isName) there

/-- The names on the way to a file are ones that a directory may hold. -/
theorem Writable.legal (h : env.Writable path stem name)
    (origin : ∀ n ∈ env.origin path, IsLegal n) : ∀ n ∈ stem ++ [name], IsLegal n := by
  obtain ⟨can, hstem⟩ := resolvePieces_eq_ok.1 h.stem
  have split := splitOn_target can.notEmpty h.notSlash
  have pieces : ∀ n ∈ Text.splitOn '/' path.text, IsName n → IsLegal n := by
    intro n hn isName
    exact ⟨isName, fun hc ↦ (Text.mem_of_mem_splitOn hn hc).2 rfl,
      fun hc ↦ can.noNul (Text.mem_of_mem_splitOn hn hc).1⟩
  rw [h.name] at split
  intro n hn
  rcases List.mem_append.1 hn with hn | hn
  · exact names_of_follow hstem origin (fun m hm ↦ pieces m (by simp [split, hm])) n hn
  · rw [List.mem_singleton.1 hn]
    exact pieces name (by simp [split]) h.isName

/-- The pieces of the absolute path of a place. -/
theorem splitOn_pathOf {place : List (List Char)} (h : ∀ n ∈ place, IsLegal n)
    (notRoot : place ≠ []) : Text.splitOn '/' (pathOf place).text = [] :: place := by
  have names : ∀ place : List (List Char), (∀ n ∈ place, IsLegal n) → place ≠ [] →
      Text.splitOn '/' (place.flatMap fun name ↦ '/' :: name) = [] :: place := by
    intro place h notRoot
    induction place with
    | nil => exact absurd rfl notRoot
    | cons n rest ih =>
      have noSlash := (h n List.mem_cons_self).noSlash
      rw [List.flatMap_cons, List.cons_append, Text.splitOn, if_pos (by rfl)]
      cases rest with
      | nil => simp [Text.splitOn_of_not_mem noSlash]
      | cons m rest =>
        have more := ih (fun k hk ↦ h k (List.mem_cons_of_mem n hk)) (by simp)
        rw [List.flatMap_cons, List.cons_append, Text.splitOn, if_pos (by rfl)] at more
        injection more with _ more
        rw [List.flatMap_cons, List.cons_append, Text.splitOn_append noSlash, more]
  rw [pathOf, if_neg (by simpa using notRoot)]
  exact names place h notRoot

/-- The absolute path of a place leads there if it is not too long. -/
theorem resolve_pathOf {place : List (List Char)} (h : ∀ n ∈ place, IsLegal n)
    (notRoot : place ≠ []) (short : isPathTooLong (pathOf place) = false)
    (there : (env.files.get? place).isSome) : env.resolve (pathOf place) = .ok place := by
  obtain ⟨n, rest, rfl⟩ := List.exists_cons_of_ne_nil notRoot
  have text : (pathOf (n :: rest)).text = '/' :: (n ++ rest.flatMap fun name ↦ '/' :: name) := by
    simp [pathOf]
  have can : CanFollow (pathOf (n :: rest)) := by
    refine ⟨by simp [text], ?_, short⟩
    have none : ∀ m ∈ n :: rest, '\x00' ∉ m := fun m hm ↦ (h m hm).noNul
    simp only [text, List.mem_cons, List.mem_append, List.mem_flatMap, not_or]
    refine ⟨by decide, none n List.mem_cons_self, ?_⟩
    rintro ⟨m, hm, hc | hc⟩
    · exact absurd hc (by decide)
    · exact none m (List.mem_cons_of_mem n hm) hc
  have origin : env.origin (pathOf (n :: rest)) = [] := by
    simp [Environment.origin, Path.isAbsolute, text]
  refine resolvePieces_eq_ok.2 ⟨can, ?_⟩
  rw [splitOn_pathOf h notRoot, origin, follow_cons,
    if_pos (FileTree.hasDirectory_of_below [] there), if_pos (by rfl)]
  exact follow_names [] (fun m hm ↦ (h m hm).isName) there

end Environment

end ConfigScript
