/-!
# Searching and replacing

Texts within texts: the first place where one occurs, cutting at a separator, and replacing every
occurrence from left to right.
-/

namespace ConfigScript.Text

/-- What stands before the first occurrence of `needle`, and what begins with it. -/
def splitAtFirst (needle : List Char) : List Char → Option (List Char × List Char)
  | [] => if needle.isEmpty then some ([], []) else none
  | c :: cs =>
    if needle.isPrefixOf (c :: cs) then some ([], c :: cs)
    else (splitAtFirst needle cs).map fun (before, rest) => (c :: before, rest)

/-- Whether `needle` occurs in the text. -/
def contains (needle hay : List Char) : Bool := (splitAtFirst needle hay).isSome

/-- Cut at every `sep`; there is always one piece more than there are separators. -/
def splitOn (sep : Char) : List Char → List (List Char)
  | [] => [[]]
  | c :: cs =>
    if c == sep then [] :: splitOn sep cs
    else match splitOn sep cs with
      | [] => [[c]]
      | piece :: pieces => (c :: piece) :: pieces

/-- Put `sep` between the pieces. -/
def join (sep : List Char) : List (List Char) → List Char
  | [] => []
  | [piece] => piece
  | piece :: pieces => piece ++ sep ++ join sep pieces

/-- Put `replacement` for every occurrence of the two characters `a`, `b`, from left to right. -/
def replacePair (a b : Char) (replacement : List Char) : List Char → List Char
  | x :: y :: cs =>
    if x == a && y == b then replacement ++ replacePair a b replacement cs
    else x :: replacePair a b replacement (y :: cs)
  | cs => cs

/-- The text before the last `sep` and the text after it; `none` where there is no `sep`. -/
def splitAtLast (sep : Char) (cs : List Char) : Option (List Char × List Char) :=
  match cs.reverse.dropWhile (· != sep) with
  | [] => none
  | _ :: before => some (before.reverse, (cs.reverse.takeWhile (· != sep)).reverse)

/-- Cutting at a separator and putting it back gives the text again. -/
theorem join_splitOn (sep : Char) (cs : List Char) : join [sep] (splitOn sep cs) = cs := by
  have ne : ∀ cs, splitOn sep cs ≠ [] := by
    intro cs
    cases cs with
    | nil => simp [splitOn]
    | cons c cs =>
      rw [splitOn]
      split
      · simp
      · split <;> simp
  induction cs with
  | nil => rfl
  | cons c cs ih =>
    rw [splitOn]
    rcases h : splitOn sep cs with _ | ⟨piece, pieces⟩
    · exact absurd h (ne cs)
    · rw [h] at ih
      split
      · rename_i hc
        rw [join, ih]
        · simp [beq_iff_eq.1 hc]
        · simp
      · cases pieces with
        | nil => simpa [join] using ih
        | cons q qs => simpa [join] using ih

end ConfigScript.Text
