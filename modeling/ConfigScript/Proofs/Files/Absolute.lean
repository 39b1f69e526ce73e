import ConfigScript.Proofs.Files.Held
import Mathlib.Data.List.Basic

/-!
# Absolute paths

Where an absolute path leads depends on no working directory: only on its components. So the path
without detours that it leads to leads there as well (`Environment.isReached_of_isAbsolute`), and
another spelling with the same components leads to the same place (`Environment.eq_of_same`). A path
that leads to a file ends with the name of that file, whatever detours it takes before
(`Environment.exists_name_of_file`).
-/

namespace ConfigScript

namespace Path

/-! ### The last component -/

/-- The last piece of a body is what stands behind the last separator. -/
theorem lastPiece_append {n body : List Char} (plain : '/' ∉ n)
    (h : body.takeWhile (· != '/') = []) : lastPiece (n.reverse ++ body) = n := by
  have all : ∀ c ∈ n.reverse, (c != '/') = true := fun c hc ↦
    bne_iff_ne.2 fun e ↦ plain (e ▸ List.mem_reverse.1 hc)
  rw [lastPiece, List.takeWhile_append_of_pos all, h, List.append_nil, List.reverse_reverse]

/-- The body of a path that ends with a name. -/
theorem reversedBody_append (x n : List Char) :
    ∃ body, reversedBody ⟨x ++ '/' :: n⟩ = n.reverse ++ body ∧
      body.takeWhile (· != '/') = [] := by
  have drop : ∀ k ≤ x.length, ((x ++ '/' :: n).drop k).reverse =
      n.reverse ++ '/' :: (x.drop k).reverse := by
    intro k hk
    rw [List.drop_append_of_le_length hk]
    simp
  have here : ∀ body : List Char, ('/' :: body).takeWhile (· != '/') = [] := fun _ ↦ rfl
  cases x with
  | nil => exact ⟨[], by simp [reversedBody, lead], rfl⟩
  | cons c x =>
    refine ⟨'/' :: ((c :: x).drop (lead ⟨c :: x ++ '/' :: n⟩).length).reverse, drop _ ?_, here _⟩
    unfold lead
    split <;> simp

/-- The name behind the last separator is that of the file. -/
theorem fileName?_append {x n : List Char} (plain : '/' ∉ n)
    (hn : n ≠ [] ∧ n ≠ ['.'] ∧ n ≠ ['.', '.']) : fileName? ⟨x ++ '/' :: n⟩ = some n := by
  obtain ⟨body, hb, here⟩ := reversedBody_append x n
  have last := lastPiece_append plain here
  have stays : dropIdle (n.reverse ++ body) = n.reverse ++ body := by
    cases hr : n.reverse ++ body with
    | nil => rw [dropIdle]
    | cons c cs =>
      rw [hr] at last
      rw [dropIdle, if_neg]
      simp [last, hn]
  rw [fileName?, hb, stays]
  split
  · rename_i nil
    simp_all
  · simp [last, hn]

/-! ### Absolute paths -/

variable {p q : Path}

theorem exists_text_of_isAbsolute (h : p.isAbsolute) : ∃ t, p = ⟨'/' :: t⟩ := by
  obtain ⟨_ | ⟨c, t⟩⟩ := p
  · simp [isAbsolute] at h
  · exact ⟨t, by simpa [isAbsolute] using h⟩

/-- The parent of an absolute path with a last name is absolute. -/
theorem isAbsolute_parent? (h : p.isAbsolute) (named : p.fileName?.isSome) :
    ∃ q, p.parent? = some q ∧ q.isAbsolute := by
  obtain ⟨t, rfl⟩ := exists_text_of_isAbsolute h
  have root : lead ⟨'/' :: t⟩ = ['/'] := rfl
  unfold fileName? at named
  unfold parent?
  split at named
  · cases named
  · exact ⟨_, rfl, by simp [root, isAbsolute]⟩

/-- What is joined to a path from the root leads from the root. -/
theorem isAbsolute_join (h : p.isAbsolute) (q : Path) : (p.join q).isAbsolute := by
  obtain ⟨t, rfl⟩ := exists_text_of_isAbsolute h
  unfold join
  split
  · assumption
  · split <;> rfl

/-- The pieces of an absolute path behind the first separator make up its components and its
text. -/
structure Pieces (p : Path) (ps : List (List Char)) : Prop where
  split : Text.splitOn '/' p.text = [] :: ps
  ne_nil : ps ≠ []
  components : p.components = .root :: ps.filterMap componentOf
  text : p.text = ps.flatMap ('/' :: ·)

/-- The body of an absolute path is made of pieces, each behind a separator. -/
theorem exists_pieces (h : p.isAbsolute) : ∃ ps, p.Pieces ps := by
  obtain ⟨t, rfl⟩ := exists_text_of_isAbsolute h
  have split : Text.splitOn '/' ('/' :: t) = [] :: Text.splitOn '/' t := by simp [Text.splitOn]
  have joined : ∀ ps : List (List Char), ps ≠ [] →
      '/' :: Text.join ['/'] ps = ps.flatMap ('/' :: ·) := by
    intro ps some
    induction ps with
    | nil => exact absurd rfl some
    | cons n ps ih =>
      cases ps with
      | nil => simp [Text.join]
      | cons m ps => simpa [Text.join] using ih (by simp)
  have some : Text.splitOn '/' t ≠ [] := by
    obtain ⟨before, last, eq, -⟩ := Text.exists_splitOn_concat '/' t
    simp [eq]
  refine ⟨Text.splitOn '/' t, split, some, ?_, ?_⟩
  · simp [Path.components, split, isAbsolute]
  · rw [← joined _ some, Text.join_splitOn]

end Path

namespace FileTree

/-- Above a directory there is a directory. -/
theorem hasDirectory_dropLast {t : FileTree} {place : List (List Char)} (h : t.hasDirectory place) :
    t.hasDirectory place.dropLast := by
  rcases List.eq_nil_or_concat place with rfl | ⟨stem, n, rfl⟩
  · exact h
  · obtain ⟨es, there⟩ := hasDirectory_iff.1 h
    rw [List.concat_eq_append, List.dropLast_concat]
    have below : (t.get? (stem ++ n :: [])).isSome := by
      rw [← List.concat_eq_append, there]
      rfl
    exact hasDirectory_of_below stem below

end FileTree

namespace Environment

variable {env : Environment} {files : FileTree} {path q : Path} {place goal : List (List Char)}

/-! ### Where absolute paths lead -/

/-- The last step of a path starts at a directory. -/
theorem exists_last_step {before : List (List Char)} {last : List Char}
    (h : follow files place (before ++ [last]) = .ok goal) : ∃ mid, files.hasDirectory mid ∧
      (goal = mid ∨ goal = mid.dropLast ∨ goal = mid ++ [last] ∧ IsName last) := by
  induction before generalizing place with
  | nil =>
    obtain ⟨hd, next, done, step, -⟩ := follow_cons_ok h
    rw [follow] at done
    split at done
    · obtain rfl := Except.ok.inj done
      exact ⟨place, hd, step⟩
    · cases done
  | cons piece before ih =>
    obtain ⟨-, next, more, -⟩ := follow_cons_ok h
    exact ih more

/-- Following a path makes no place whose path is longer. -/
theorem byteLength_follow {pieces : List (List Char)} (h : follow files place pieces = .ok goal) :
    Text.byteLength (goal.flatMap ('/' :: ·)) ≤
      Text.byteLength (place.flatMap ('/' :: ·)) + Text.byteLength (pieces.flatMap ('/' :: ·)) := by
  induction pieces generalizing place with
  | nil =>
    rw [follow] at h
    split at h
    · obtain rfl := Except.ok.inj h
      exact Nat.le_add_right _ _
    · cases h
  | cons piece pieces ih =>
    obtain ⟨-, next, more, step, -⟩ := follow_cons_ok h
    have rest := ih more
    rw [List.flatMap_cons, Text.byteLength_append]
    rcases step with rfl | rfl | ⟨rfl, -⟩
    · omega
    · rcases List.eq_nil_or_concat place with rfl | ⟨stem, n, rfl⟩
      · simpa using Nat.le_trans rest (by simp)
      · rw [List.concat_eq_append, List.dropLast_concat] at rest
        rw [List.concat_eq_append, List.flatMap_append, Text.byteLength_append]
        omega
    · rw [List.flatMap_append, Text.byteLength_append, List.flatMap_singleton] at rest
      omega

theorem componentOf_eq (piece : List Char) : Path.componentOf piece =
    if isIdle piece then none
    else if piece == ['.', '.'] then some .parent else some (.name piece) := rfl

/-- A path without `..` leads to the place of its names. -/
theorem eq_of_follow {pieces names : List (List Char)} (h : follow files place pieces = .ok goal)
    (plain : pieces.filterMap Path.componentOf = names.map .name) : goal = place ++ names := by
  induction pieces generalizing place names with
  | nil =>
    obtain rfl : names = [] := by simpa using plain.symm
    rw [follow] at h
    split at h
    · rw [List.append_nil, Except.ok.inj h]
    · cases h
  | cons piece pieces ih =>
    rw [List.filterMap_cons] at plain
    rw [follow_cons] at h
    split at h
    · by_cases idle : isIdle piece = true
      · rw [if_pos idle] at h
        rw [componentOf_eq, if_pos idle] at plain
        exact ih h plain
      · rw [if_neg idle] at h
        by_cases parent : (piece == ['.', '.']) = true
        · rw [componentOf_eq, if_neg idle, if_pos parent] at plain
          cases names <;> simp at plain
        · rw [componentOf_eq, if_neg idle, if_neg parent] at plain
          rw [if_neg parent] at h
          split at h
          · cases h
          · cases names with
            | nil => simp at plain
            | cons n names =>
              simp only [List.map_cons, List.cons.injEq, Path.Component.name.injEq] at plain
              rw [ih h plain.2, plain.1, List.append_assoc]
              rfl
    · split at h <;> cases h

/-- An absolute path that leads somewhere is followed from the root by its pieces. -/
theorem exists_way (absolute : path.isAbsolute) (h : env.resolve path = .ok place) :
    ∃ ps, path.Pieces ps ∧ env.files.hasDirectory [] ∧ follow env.files [] ps = .ok place := by
  obtain ⟨ps, pieces⟩ := Path.exists_pieces absolute
  obtain ⟨-, way⟩ := resolvePieces_eq_ok.1 h
  rw [origin, if_pos absolute, pieces.split] at way
  -- The piece in front of the first separator is empty and stays at the root.
  have root : env.files.hasDirectory [] := (follow_cons_ok way).1
  have idle : isIdle [] = true := rfl
  rw [follow_cons, if_pos root, if_pos idle] at way
  exact ⟨ps, pieces, root, way⟩

/-- The names that an absolute path leads to are such as a directory may hold. -/
theorem isLegal_of_resolve (absolute : path.isAbsolute) (h : env.resolve path = .ok place) :
    ∀ n ∈ place, IsLegal n := by
  obtain ⟨can, h⟩ := resolvePieces_eq_ok.1 h
  rw [origin, if_pos absolute] at h
  refine names_of_follow h (List.forall_mem_nil _) fun n hn isName ↦ ⟨isName, ?_, ?_⟩
  · exact fun slash ↦ (Text.mem_of_mem_splitOn hn slash).2 rfl
  · exact fun nul ↦ can.noNul (Text.mem_of_mem_splitOn hn nul).1

/-- The path without detours that an absolute path leads to leads there as well. -/
theorem isReached_of_isAbsolute (absolute : path.isAbsolute) : env.IsReached path := by
  intro place h
  obtain ⟨ps, pieces, root, way⟩ := exists_way absolute h
  by_cases top : place = []
  · subst top
    refine resolvePieces_eq_ok.2 ⟨⟨by decide, by decide, by decide⟩, ?_⟩
    show follow env.files [] [[], []] = .ok []
    have idle : isIdle [] = true := rfl
    rw [follow_cons, if_pos root, if_pos idle, follow_cons, if_pos root, if_pos idle, follow]
    rfl
  · refine resolve_pathOf (isLegal_of_resolve absolute h) top ?_ (get?_of_resolve h)
    have short : ¬4095 < Text.byteLength path.text := by simpa [isPathTooLong] using
      (resolvePieces_eq_ok.1 h).1.short
    have length := byteLength_follow way
    rw [← pieces.text, List.flatMap_nil, Text.byteLength_nil] at length
    have same : (pathOf place).text = place.flatMap ('/' :: ·) := by
      rw [pathOf, if_neg (by simpa using top)]
    rw [isPathTooLong, same, decide_eq_false_iff_not]
    omega

/-- The path to a place has the names of the place as its components. -/
theorem components_pathOf (legal : ∀ n ∈ place, IsLegal n) :
    (pathOf place).components = .root :: place.map .name := by
  by_cases top : place = []
  · subst top
    rfl
  · have absolute : (pathOf place).isAbsolute := by
      obtain ⟨n, rest, rfl⟩ := List.exists_cons_of_ne_nil top
      simp [pathOf, Path.isAbsolute]
    obtain ⟨ps, pieces⟩ := Path.exists_pieces absolute
    obtain rfl : place = ps := by simpa [splitOn_pathOf legal top] using pieces.split
    have name : ∀ n ∈ place, Path.componentOf n = some (.name n) := fun n hn ↦ by
      obtain ⟨⟨idle, parent, -⟩, -, -⟩ := legal n hn
      rw [componentOf_eq, if_neg (by simp [idle]), if_neg (by simpa using parent)]
    rw [pieces.components, List.filterMap_eq_map_iff_forall_eq_some.2 name]

/-- An absolute path with the components of a place leads to that place, if it leads anywhere. -/
theorem eq_of_same (legal : ∀ n ∈ place, IsLegal n) (same : (pathOf place).same q)
    (absolute : q.isAbsolute) (h : env.resolve q = .ok goal) : goal = place := by
  obtain ⟨ps, pieces, -, way⟩ := exists_way absolute h
  have plain : ps.filterMap Path.componentOf = place.map .name := by
    have equal := beq_iff_eq.1 same
    rw [components_pathOf legal, pieces.components] at equal
    exact (List.cons.inj equal).2.symm
  exact eq_of_follow way plain

/-! ### Paths of files -/

/-- A file is read where the path leads to it. -/
theorem read_eq_ok {content : Content} : env.read path = .ok content ↔
    ∃ place, env.resolve path = .ok place ∧ env.files.get? place = some (.file content) := by
  rw [read]
  cases env.resolve path with
  | error e =>
    constructor
    · intro same
      cases same
    · rintro ⟨_, same, -⟩
      cases same
  | ok place =>
    refine ⟨fun h ↦ ⟨place, rfl, ?_⟩, ?_⟩
    · rcases there : env.files.get? place with _ | c | es <;>
        simp only [bind, Except.bind, there] at h
      · cases h
      · rw [Except.ok.inj h]
      · cases h
    · rintro ⟨_, same, there⟩
      obtain rfl := Except.ok.inj same
      simp only [bind, Except.bind, there]
      rfl

/-- The canonical path of a file is the path to the place where it is. -/
theorem canonical_eq_ok {p : Path} : env.canonical path = .ok p ↔
    ∃ place, env.resolve path = .ok place ∧ pathOf place = p := by
  rw [canonical]
  cases env.resolve path with
  | error e =>
    constructor
    · intro same
      cases same
    · rintro ⟨_, same, -⟩
      cases same
  | ok place =>
    refine ⟨fun h ↦ ⟨place, rfl, Except.ok.inj h⟩, ?_⟩
    rintro ⟨_, same, rfl⟩
    rw [Except.ok.inj same]
    rfl

/-- The path to a place is absolute. -/
theorem isAbsolute_pathOf (place : List (List Char)) : (pathOf place).isAbsolute := by
  cases place with
  | nil => rfl
  | cons n rest => simp [pathOf, Path.isAbsolute]

theorem IsName.ne {n : List Char} (h : IsName n) : n ≠ [] ∧ n ≠ ['.'] ∧ n ≠ ['.', '.'] := by
  obtain ⟨idle, parent, -⟩ := h
  simp only [isIdle, Bool.or_eq_false_iff, beq_eq_false_iff_ne, ne_eq] at idle
  exact ⟨idle.1, idle.2, parent⟩

theorem fileName?_pathOf {stem : List (List Char)} {n : List Char} (h : IsName n)
    (plain : '/' ∉ n) : (pathOf (stem ++ [n])).fileName? = some n := by
  have text : pathOf (stem ++ [n]) = ⟨stem.flatMap ('/' :: ·) ++ '/' :: n⟩ := by simp [pathOf]
  rw [text, Path.fileName?_append plain h.ne]

/-- A path that leads to a file ends with the name of the file. -/
theorem exists_name_of_file {content : Content} (absolute : path.isAbsolute)
    (h : env.resolve path = .ok place) (file : env.files.get? place = some (.file content)) :
    ∃ stem n, place = stem ++ [n] ∧ path.fileName? = some n ∧
      (pathOf place).fileName? = some n := by
  obtain ⟨ps, pieces, -, way⟩ := exists_way absolute h
  obtain ⟨before, last, rfl⟩ : ∃ before last, ps = before ++ [last] :=
    ⟨_, _, (List.dropLast_concat_getLast pieces.ne_nil).symm⟩
  -- The last step does not stay at a directory or go back to one.
  have noDirectory : env.files.hasDirectory place = false := by
    simp [FileTree.hasDirectory, file, FileTree.isFile]
  obtain ⟨mid, hd, rfl | rfl | ⟨rfl, isName⟩⟩ := exists_last_step way
  · simp [hd] at noDirectory
  · simp [FileTree.hasDirectory_dropLast hd] at noDirectory
  · have split : Text.splitOn '/' path.text = ([] :: before) ++ [last] := pieces.split
    have piece : last ∈ Text.splitOn '/' path.text := by simp [split]
    have plain : '/' ∉ last := fun slash ↦ (Text.mem_of_mem_splitOn piece slash).2 rfl
    refine ⟨mid, last, rfl, ?_, fileName?_pathOf isName plain⟩
    obtain ⟨x, text⟩ := Text.exists_append_of_splitOn split (List.cons_ne_nil _ _)
    rw [show path = ⟨x ++ '/' :: last⟩ from congrArg Path.mk text,
      Path.fileName?_append plain isName.ne]

end Environment

end ConfigScript
