import ConfigScript.Proofs.Files.Held

/-!
# Removing a file

Dropping a file changes no directory, so its path is followed as before, up to the file itself: a
file that is held can be removed, and then its path leads nowhere (`Environment.Holds.removeFile`).
-/

namespace ConfigScript

namespace FileTree

variable {t : FileTree} {stem : List (List Char)} {name : List Char}

/-- What is erased further down is erased from a child. -/
theorem erase_cons_concat (t : FileTree) (m : List Char) (stem : List (List Char))
    (name : List Char) : t.erase (m :: (stem ++ [name])) =
      match Assoc.lookup m t.entries with
      | some child => directory (Assoc.insert m (child.erase (stem ++ [name])) t.entries)
      | none => t := by
  cases stem <;> rfl

/-- What was dropped is gone. -/
theorem get?_erase_self (above : t.hasDirectory stem) :
    (t.erase (stem ++ [name])).get? (stem ++ [name]) = none := by
  induction stem generalizing t with
  | nil =>
    rw [List.nil_append, erase, get?, entries_directory, Assoc.lookup_erase_self]
    rfl
  | cons m stem ih =>
    cases t with
    | file c => rw [hasDirectory_file] at above; cases above
    | directory es =>
      rw [hasDirectory_cons] at above
      rw [List.cons_append, erase_cons_concat, entries_directory]
      cases hl : Assoc.lookup m es with
      | none => rw [hl] at above; cases above
      | some child =>
        rw [hl] at above
        dsimp only
        rw [get?, entries_directory, Assoc.lookup_insert_self]
        exact ih above

/-- Dropping a file changes no directory. -/
theorem hasDirectory_erase (above : t.hasDirectory stem)
    (free : t.hasDirectory (stem ++ [name]) = false) (place : List (List Char)) :
    (t.erase (stem ++ [name])).hasDirectory place = t.hasDirectory place := by
  -- By recursion down to the directory of the file; a path that parts on the way is left alone.
  induction stem generalizing t place with
  | nil =>
    obtain ⟨es, rfl⟩ : ∃ es, t = directory es := by
      cases t with
      | file c => rw [hasDirectory_file] at above; cases above
      | directory es => exact ⟨es, rfl⟩
    rw [List.nil_append, erase, entries_directory]
    cases place with
    | nil => rfl
    | cons n rest =>
      rw [hasDirectory_cons, hasDirectory_cons]
      by_cases hn : n = name
      · subst hn
        rw [Assoc.lookup_erase_self, Option.any_none]
        rw [List.nil_append, hasDirectory_cons] at free
        cases hl : Assoc.lookup n es with
        | none => rfl
        | some child =>
          rw [hl] at free
          cases child with
          | file c => exact (hasDirectory_file c rest).symm
          | directory ds => cases free
      · rw [Assoc.lookup_erase_of_ne hn]
  | cons m stem ih =>
    cases t with
    | file c =>
      rw [hasDirectory_file] at above
      cases above
    | directory es =>
      rw [hasDirectory_cons] at above
      rw [List.cons_append, hasDirectory_cons] at free
      rw [List.cons_append, erase_cons_concat, entries_directory]
      cases hl : Assoc.lookup m es with
      | none => rfl
      | some child =>
        rw [hl] at above free
        dsimp only
        cases place with
        | nil => rfl
        | cons n rest =>
          rw [hasDirectory_cons, hasDirectory_cons]
          by_cases hn : n = m
          · subst hn
            rw [Assoc.lookup_insert_self, hl]
            exact ih above free rest
          · rw [Assoc.lookup_insert_of_ne hn]

end FileTree

namespace Environment

variable {env : Environment} {path : Path} {text : List Char}

/-- A path to a file that was dropped leads nowhere. -/
theorem Writable.resolve_erase {stem : List (List Char)} {name : List Char}
    (h : env.Writable path stem name) :
    ({ env with files := env.files.erase (stem ++ [name]) } : Environment).resolve path =
      .error .notFound := by
  have same := FileTree.hasDirectory_erase h.directory h.free
  have directory := (same stem).trans h.directory
  have gone : (env.files.erase (stem ++ [name])).get? (stem ++ [name]) = none :=
    FileTree.get?_erase_self h.directory
  have there : ((env.files.erase (stem ++ [name])).get? stem).isSome := by
    obtain ⟨es, found⟩ := FileTree.hasDirectory_iff.1 directory
    rw [found]
    rfl
  obtain ⟨can, front⟩ := resolvePieces_eq_ok.1 (resolvePieces_congr h.stem same there)
  have pieces : Text.splitOn '/' path.text = (target path).1 ++ [name] := by
    rw [splitOn_target can.notEmpty h.notSlash, h.name]
  have step : follow (env.files.erase (stem ++ [name]))
      (if path.isAbsolute then [] else env.workingDirectory) (Text.splitOn '/' path.text) =
        .error .notFound := by
    rw [pieces]
    refine (follow_append front).trans ?_
    rw [follow_name directory h.isName, follow, gone]
    rfl
  unfold Environment.resolve resolvePieces
  rw [if_neg (by simpa using can.notEmpty), if_neg (by simpa using can.noNul),
    if_neg (by simp [can.short])]
  exact step

/-- What is held can be removed, and then nothing is there. -/
theorem Holds.removeFile (h : env.Holds path text) :
    ∃ env', env.removeFile path = .ok env' ∧ env'.find? path = none := by
  obtain ⟨stem, name, writable, there⟩ := h
  have present : (env.files.get? (stem ++ [name])).isSome := by simp [there]
  refine ⟨{ env with files := env.files.erase (stem ++ [name]) }, ?_, ?_⟩
  · simp only [Environment.removeFile, writable.resolve present, bind, Except.bind, there, pure,
      Except.pure]
  · rw [Environment.find?, writable.resolve_erase]

end Environment

end ConfigScript
