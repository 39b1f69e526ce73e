import ConfigScript.Environment

/-!
# Following paths while files change

Where a path leads depends only on which places are directories, and on whether something stands at
its end. Replacing a file changes neither for the places that paths go through, so what could be
written once can be written and read again.
-/

namespace ConfigScript

namespace FileTree

/-- Whether a directory stands at a place. -/
def hasDirectory (t : FileTree) (place : List (List Char)) : Bool :=
  (t.get? place).any fun u ↦ !u.isFile

/-- A directory stands at a place if its entries are found there. -/
theorem hasDirectory_iff {t : FileTree} {place : List (List Char)} :
    t.hasDirectory place ↔ ∃ es, t.get? place = some (.directory es) := by
  unfold hasDirectory
  cases h : t.get? place with
  | none => simp
  | some u => cases u <;> simp [isFile]

/-- Nothing but the place itself stands below a file. -/
theorem hasDirectory_file (c : Content) (place : List (List Char)) :
    (file c).hasDirectory place = false := by
  cases place with
  | nil => rfl
  | cons n rest => simp [hasDirectory, get?, entries]

/-- Below a directory, the first name is looked up in its entries. -/
theorem hasDirectory_cons (es : List (List Char × FileTree)) (n : List Char)
    (rest : List (List Char)) :
    (directory es).hasDirectory (n :: rest) =
      ((Assoc.lookup n es).any fun child ↦ child.hasDirectory rest) := by
  unfold hasDirectory
  rw [get?, entries_directory]
  cases Assoc.lookup n es <;> rfl

/-- Putting a file where no directory stands changes no directory. -/
theorem hasDirectory_put {t : FileTree} {stem : List (List Char)} {name : List Char}
    (above : t.hasDirectory stem) (free : t.hasDirectory (stem ++ [name]) = false) (c : Content)
    (place : List (List Char)) :
    (t.put (stem ++ [name]) (.file c)).hasDirectory place = t.hasDirectory place := by
  -- By recursion down to the directory of the file. There, what is put is a file and so was what it
  -- replaces.
  induction stem generalizing t place with
  | nil =>
    obtain ⟨es, he⟩ := hasDirectory_iff.1 above
    obtain rfl : t = .directory es := by simpa using he
    rw [List.nil_append, put, put, entries_directory]
    cases place with
    | nil => rfl
    | cons n rest =>
      rw [hasDirectory_cons, hasDirectory_cons]
      by_cases hn : n = name
      · subst hn
        rw [List.nil_append, hasDirectory_cons] at free
        rw [Assoc.lookup_insert_self]
        cases hl : Assoc.lookup n es with
        | none => simp [hasDirectory_file]
        | some child =>
          rw [hl] at free
          have isFile : ∃ d, child = .file d := by
            cases child with
            | file d => exact ⟨d, rfl⟩
            | directory ds => exact absurd free (by simp [hasDirectory, FileTree.isFile])
          obtain ⟨d, rfl⟩ := isFile
          simp [hasDirectory_file]
      · rw [Assoc.lookup_insert_of_ne hn]
  | cons m stem ih =>
    obtain ⟨es, rfl⟩ : ∃ es, t = .directory es := by
      cases t with
      | file d => rw [hasDirectory_file] at above; cases above
      | directory es => exact ⟨es, rfl⟩
    rw [hasDirectory_cons] at above
    rw [List.cons_append, hasDirectory_cons] at free
    cases hl : Assoc.lookup m es with
    | none => rw [hl] at above; cases above
    | some child =>
      rw [hl] at above free
      rw [List.cons_append, put, entries_directory, hl]
      cases place with
      | nil => rfl
      | cons n rest =>
        rw [hasDirectory_cons, hasDirectory_cons]
        by_cases hn : n = m
        · subst hn
          rw [Assoc.lookup_insert_self, hl]
          exact ih above free rest
        · rw [Assoc.lookup_insert_of_ne hn]

/-- Where something stands below a place, the place is a directory. -/
theorem hasDirectory_of_below {t : FileTree} (stem : List (List Char)) {n : List Char}
    {rest : List (List Char)} (h : (t.get? (stem ++ n :: rest)).isSome) : t.hasDirectory stem := by
  induction stem generalizing t with
  | nil =>
    cases t with
    | file c => simp [get?, entries] at h
    | directory es => rfl
  | cons m stem ih =>
    cases t with
    | file c => simp [get?, entries] at h
    | directory es =>
      rw [hasDirectory_cons]
      rw [List.cons_append, get?, entries_directory] at h
      cases hl : Assoc.lookup m es with
      | none => rw [hl] at h; cases h
      | some child =>
        rw [hl] at h
        exact ih h

end FileTree

namespace Environment

variable {files files' : FileTree} {place goal : List (List Char)}

/-! ### Following -/

/-- One more step from a place. -/
theorem follow_cons (files : FileTree) (place : List (List Char)) (piece : List Char)
    (rest : List (List Char)) :
    follow files place (piece :: rest) =
      if files.hasDirectory place then
        if isIdle piece then follow files place rest
        else if piece == ['.', '.'] then follow files place.dropLast rest
        else if isNameTooLong piece then .error .nameTooLong
        else follow files (place ++ [piece]) rest
      else if (files.get? place).isSome then .error .notADirectory else .error .notFound := by
  rw [follow]
  unfold FileTree.hasDirectory
  cases files.get? place with
  | none => rfl
  | some t => cases t <;> rfl

/-- A piece that is no detour: the name of an entry. -/
def IsName (piece : List Char) : Prop :=
  isIdle piece = false ∧ piece ≠ ['.', '.'] ∧ isNameTooLong piece = false

/-- What a step does that does not fail. It leads to the same place in all trees in which a directory
stands where it begins. -/
theorem follow_cons_ok {piece : List Char} {rest : List (List Char)}
    (h : follow files place (piece :: rest) = .ok goal) :
    files.hasDirectory place ∧ ∃ next, follow files next rest = .ok goal ∧
      (next = place ∨ next = place.dropLast ∨ next = place ++ [piece] ∧ IsName piece) ∧
      ∀ files' : FileTree, files'.hasDirectory place →
        ∀ zs, follow files' place (piece :: zs) = follow files' next zs := by
  rw [follow_cons] at h
  split at h
  · rename_i hd
    refine ⟨hd, ?_⟩
    by_cases idle : isIdle piece = true
    · rw [if_pos idle] at h
      refine ⟨place, h, .inl rfl, fun files' hd' zs ↦ ?_⟩
      rw [follow_cons, if_pos hd', if_pos idle]
    · rw [if_neg idle] at h
      by_cases parent : (piece == ['.', '.']) = true
      · rw [if_pos parent] at h
        refine ⟨place.dropLast, h, .inr (.inl rfl), fun files' hd' zs ↦ ?_⟩
        rw [follow_cons, if_pos hd', if_neg idle, if_pos parent]
      · rw [if_neg parent] at h
        by_cases long : isNameTooLong piece = true
        · rw [if_pos long] at h
          cases h
        · rw [if_neg long] at h
          refine ⟨place ++ [piece], h, .inr (.inr ⟨rfl, ?_⟩), fun files' hd' zs ↦ ?_⟩
          · simpa [IsName] using And.intro idle (And.intro parent long)
          · rw [follow_cons, if_pos hd', if_neg idle, if_neg parent, if_neg long]
  · split at h <;> cases h

/-- A step by a name. -/
theorem follow_name {piece : List Char} (hd : files.hasDirectory place) (hp : IsName piece)
    (rest : List (List Char)) :
    follow files place (piece :: rest) = follow files (place ++ [piece]) rest := by
  have parent : (piece == ['.', '.']) = false := beq_eq_false_iff_ne.2 hp.2.1
  simp [follow_cons, hd, hp.1, hp.2.2, parent]

/-- A path goes on from where its first pieces lead. -/
theorem follow_append {xs ys : List (List Char)} (h : follow files place xs = .ok goal) :
    follow files place (xs ++ ys) = follow files goal ys := by
  induction xs generalizing place with
  | nil =>
    rw [follow] at h
    split at h
    · injection h with h
      rw [h, List.nil_append]
    · cases h
  | cons piece rest ih =>
    obtain ⟨hd, next, more, -, step⟩ := follow_cons_ok h
    rw [List.cons_append, step files hd, ih more]

/-- Where a path leads does not change while the directories stay and something stands there. -/
theorem follow_congr {pieces : List (List Char)} (h : follow files place pieces = .ok goal)
    (same : ∀ q, files'.hasDirectory q = files.hasDirectory q) (there : (files'.get? goal).isSome) :
    follow files' place pieces = .ok goal := by
  induction pieces generalizing place with
  | nil =>
    rw [follow] at h
    split at h
    · injection h with h
      subst h
      rw [follow, if_pos there]
    · cases h
  | cons piece rest ih =>
    obtain ⟨hd, next, more, -, step⟩ := follow_cons_ok h
    rw [step files' ((same place).trans hd), ih more]

/-- Where a path leads, something stands. -/
theorem get?_of_follow {pieces : List (List Char)} (h : follow files place pieces = .ok goal) :
    (files.get? goal).isSome := by
  induction pieces generalizing place with
  | nil =>
    rw [follow] at h
    split at h
    · rename_i there
      injection h with h
      exact h ▸ there
    · cases h
  | cons piece rest ih =>
    obtain ⟨-, next, more, -⟩ := follow_cons_ok h
    exact ih more

/-- The names on the way are names of entries, and so is every name of the place that is reached. -/
theorem names_of_follow {P : List Char → Prop} {pieces : List (List Char)}
    (h : follow files place pieces = .ok goal) (start : ∀ n ∈ place, P n)
    (names : ∀ n ∈ pieces, IsName n → P n) : ∀ n ∈ goal, P n := by
  induction pieces generalizing place with
  | nil =>
    rw [follow] at h
    split at h
    · injection h with h
      exact h ▸ start
    · cases h
  | cons piece rest ih =>
    obtain ⟨-, next, more, hn, -⟩ := follow_cons_ok h
    refine ih more ?_ fun n hm ↦ names n (List.mem_cons_of_mem piece hm)
    rcases hn with rfl | rfl | ⟨rfl, hp⟩
    · exact start
    · exact fun n hm ↦ start n (List.dropLast_subset _ hm)
    · intro n hm
      rcases List.mem_append.1 hm with hm | hm
      · exact start n hm
      · rw [List.mem_singleton.1 hm]
        exact names piece List.mem_cons_self hp

/-- A place is reached from the root by its names. -/
theorem follow_names (stem : List (List Char)) {names : List (List Char)}
    (h : ∀ n ∈ names, IsName n) (there : (files.get? (stem ++ names)).isSome) :
    follow files stem names = .ok (stem ++ names) := by
  induction names generalizing stem with
  | nil =>
    rw [List.append_nil] at there ⊢
    rw [follow, if_pos there]
  | cons n names ih =>
    have above : files.hasDirectory stem := FileTree.hasDirectory_of_below stem there
    have shape : stem ++ n :: names = stem ++ [n] ++ names := by simp
    rw [follow_name above (h n List.mem_cons_self), shape]
    exact ih _ (fun m hm ↦ h m (List.mem_cons_of_mem n hm)) (shape ▸ there)

end Environment

end ConfigScript
