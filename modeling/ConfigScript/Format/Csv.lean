import ConfigScript.Text.Search

/-!
# Comma-separated values

Records are lines, and commas part their cells. A cell that holds a comma, a quote or a line break
is put in quotes, in which a quote is written twice. Reading undoes this; a text that no records are
written as may fail to be read.
-/

namespace ConfigScript.Format.Csv

/-- Characters that a cell without quotes cannot hold. -/
def isSpecial (c : Char) : Bool := c == ',' || c == '"' || c == '\n' || c == '\r'

/-- The inside of quotes. -/
def escape (cs : List Char) : List Char := cs.flatMap fun c => if c == '"' then ['"', '"'] else [c]

/-- A cell. -/
def cell (cs : List Char) : List Char :=
  if cs.any isSpecial then '"' :: (escape cs ++ ['"']) else cs

/-- A record. -/
def record (cells : List String) : List Char := Text.join [','] (cells.map fun s => cell s.toList)

/-- Records one below the other. -/
def render (records : List (List String)) : String :=
  String.ofList (Text.join ['\n'] (records.map record))

/-! ### Reading -/

/-- Read the inside of quotes: the cell, and what follows the closing quote. -/
def readQuoted? : List Char → Option (List Char × List Char)
  | [] => none
  | '"' :: '"' :: r => (readQuoted? r).map fun (cell, rest) => ('"' :: cell, rest)
  | '"' :: r => some ([], r)
  | c :: r => (readQuoted? r).map fun (cell, rest) => (c :: cell, rest)

/-- Read a cell, with or without quotes. -/
def readCell? : List Char → Option (List Char × List Char)
  | '"' :: r => readQuoted? r
  | cs => some (cs.takeWhile (!isSpecial ·), cs.dropWhile (!isSpecial ·))

/-- What is left behind a quoted cell is the end of the text, so the reader comes to an end. -/
theorem readQuoted?_suffix {cs cell rest : List Char} (h : readQuoted? cs = some (cell, rest)) :
    rest <:+ cs := by
  fun_induction readQuoted? cs generalizing cell rest with
  | case1 => cases h
  | case2 r ih =>
    obtain ⟨⟨t, rest'⟩, hr, heq⟩ := Option.map_eq_some_iff.1 h
    injection heq with _ heq
    subst heq
    exact (ih hr).trans ((List.suffix_cons _ r).trans (List.suffix_cons _ _))
  | case3 r _ =>
    injection h with h
    injection h with _ h
    exact h ▸ List.suffix_cons _ _
  | case4 c r _ _ ih =>
    obtain ⟨⟨t, rest'⟩, hr, heq⟩ := Option.map_eq_some_iff.1 h
    injection heq with _ heq
    subst heq
    exact (ih hr).trans (List.suffix_cons _ _)

/-- What is left behind a cell is the end of the text. -/
theorem readCell?_suffix {cs cell rest : List Char} (h : readCell? cs = some (cell, rest)) :
    rest <:+ cs := by
  unfold readCell? at h
  split at h
  · exact (readQuoted?_suffix h).trans (List.suffix_cons _ _)
  · injection h with h
    injection h with _ h
    exact h ▸ List.dropWhile_suffix _

/-- Put a cell in front of the first record. -/
def addCell (cell : List Char) : List (List (List Char)) → List (List (List Char))
  | [] => [[cell]]
  | cells :: records => (cell :: cells) :: records

/-- Read records, of which there is at least one. -/
def read? (cs : List Char) : Option (List (List (List Char))) :=
  match h : readCell? cs with
  | none => none
  | some (cell, []) => some [[cell]]
  | some (cell, mark :: rest) =>
    have : rest.length < cs.length := (readCell?_suffix h).length_le
    if mark == ',' then (read? rest).map (addCell cell)
    else if mark == '\n' then (read? rest).map ([cell] :: ·)
    else none
termination_by cs.length

end ConfigScript.Format.Csv
