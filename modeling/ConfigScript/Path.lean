import ConfigScript.Text.Search

/-!
# Paths

A path is the text that names a file, kept as it was written; `/` separates its components. Paths
are compared by their components, so `//a`, `/a/` and `/a` are the same place, while the text is
what messages show.

The last component is found by reading the text backwards: separators and components `.` at the end
do not count. What stands before the last component is the parent's text, without such an end of
its own.
-/

namespace ConfigScript

/-- A path as it was written. -/
structure Path where
  text : List Char
deriving DecidableEq, Repr, Inhabited

namespace Path

/-- One step of a path. -/
inductive Component where
  | root
  | current
  | parent
  | name (n : List Char)
deriving DecidableEq, Repr

/-- The path with the given text. -/
def ofString (s : String) : Path := ⟨s.toList⟩

/-- The text of the path. -/
def toString (p : Path) : String := String.ofList p.text

/-- Whether the path begins at the root. -/
def isAbsolute (p : Path) : Bool := p.text.head? == some '/'

/-! ### Components -/

/-- A component that is not the first of a relative path; empty ones and `.` say nothing. -/
def componentOf (piece : List Char) : Option Component :=
  if piece == [] || piece == ['.'] then none
  else if piece == ['.', '.'] then some .parent
  else some (.name piece)

/-- The components in order. A relative path may begin with `.`, which then counts. -/
def components (p : Path) : List Component :=
  match Text.splitOn '/' p.text with
  | [] => []
  | first :: rest =>
    let tail := rest.filterMap componentOf
    -- The piece in front of the first separator of an absolute path is empty.
    if p.isAbsolute then .root :: tail
    else if first == ['.'] then .current :: tail
    else (componentOf first).toList ++ tail

/-- Whether two paths have the same components. -/
def same (p q : Path) : Bool := p.components == q.components

/-! ### The last component -/

/-- The beginning that is no ordinary component: `/`, or the `.` of a relative path. -/
def lead (p : Path) : List Char :=
  match p.text with
  | '/' :: _ => ['/']
  | ['.'] => ['.']
  | '.' :: '/' :: _ => ['.']
  | _ => []

/-- The text after `lead`, reversed. -/
def reversedBody (p : Path) : List Char := (p.text.drop p.lead.length).reverse

/-- The last piece of a reversed body: the characters after the last separator. -/
def lastPiece (body : List Char) : List Char := (body.takeWhile (· != '/')).reverse

/-- A reversed body without its last piece and the separator before that. -/
def dropPiece (body : List Char) : List Char := (body.dropWhile (· != '/')).drop 1

theorem length_dropPiece_lt {c : Char} {cs : List Char} :
    (dropPiece (c :: cs)).length < (c :: cs).length := by
  have shorter := (List.dropWhile_sublist (p := fun x : Char => x != '/') (l := cs)).length_le
  simp only [dropPiece, List.dropWhile_cons]
  split <;> simp only [List.length_drop, List.length_cons] <;> omega

/-- A reversed body without the separators and components `.` at its end. -/
def dropIdle : List Char → List Char
  | [] => []
  | c :: cs =>
    if lastPiece (c :: cs) == [] || lastPiece (c :: cs) == ['.'] then dropIdle (dropPiece (c :: cs))
    else c :: cs
termination_by body => body.length
decreasing_by exact length_dropPiece_lt

/-- The path without its last component; `none` for the empty path and the root. -/
def parent? (p : Path) : Option Path :=
  match dropIdle p.reversedBody with
  | [] => if p.lead == ['.'] then some ⟨[]⟩ else none
  | body => some ⟨p.lead ++ (dropIdle (dropPiece body)).reverse⟩

/-- The last component, if it is a name. -/
def fileName? (p : Path) : Option (List Char) :=
  match dropIdle p.reversedBody with
  | [] => none
  | body => if lastPiece body == ['.', '.'] then none else some (lastPiece body)

/-- The last component, or the whole text when that is no name. -/
def displayName (p : Path) : List Char := p.fileName?.getD p.text

/-! ### Building paths -/

/-- `p` followed by `q`, which replaces it when it is absolute. -/
def join (p q : Path) : Path :=
  if q.isAbsolute then q
  else if p.text.isEmpty || p.text.getLast? == some '/' then ⟨p.text ++ q.text⟩
  else ⟨p.text ++ '/' :: q.text⟩

/-- The parent is written with fewer characters, so climbing ends. -/
theorem length_parent?_lt {p q : Path} (h : p.parent? = some q) :
    q.text.length < p.text.length := by
  have idle : ∀ body : List Char, (dropIdle body).length ≤ body.length := by
    intro body
    fun_induction dropIdle body with
    | case1 => simp
    | case2 c cs _ ih =>
      have := @length_dropPiece_lt c cs
      omega
    | case3 => simp
  have leadLength : p.lead.length ≤ p.text.length := by
    unfold lead
    split <;> simp_all
  have bodyLength : p.reversedBody.length = p.text.length - p.lead.length := by
    simp [reversedBody]
  have h1 := idle p.reversedBody
  unfold parent? at h
  split at h
  · split at h
    · rename_i hl
      injection h with h
      subst h
      have : p.lead.length = 1 := by rw [beq_iff_eq.1 hl]; rfl
      simp only [List.length_nil]
      omega
    · cases h
  · rename_i hne
    injection h with h
    subst h
    rcases hb : dropIdle p.reversedBody with _ | ⟨c, cs⟩
    · exact absurd hb hne
    · have h2 := idle (dropPiece (c :: cs))
      have h3 := @length_dropPiece_lt c cs
      rw [hb] at h1
      simp only [List.length_append, List.length_reverse]
      omega

/-- The path itself, its parent, the parent of that, and so on. -/
def ancestors (p : Path) : List Path :=
  match _h : p.parent? with
  | none => [p]
  | some q => p :: ancestors q
termination_by p.text.length
decreasing_by exact length_parent?_lt _h

end Path

end ConfigScript
