import ConfigScript.Scope

/-!
# Did you mean …?

The name among the entries that is nearest to a given one, measured in insertions, deletions and
substitutions of single characters.
-/

namespace ConfigScript.Suggestion

/-- The next row of the table of distances, from the row above. `left` is the distance in the column
before, `diagonal` the one above that; the row above is given from this column on. -/
def nextRow (c : Char) (left diagonal : Nat) : List Char → List Nat → List Nat
  | d :: ds, above :: row =>
    let here := min (min (above + 1) (left + 1)) (diagonal + if c = d then 0 else 1)
    here :: nextRow c here above ds row
  | _, _ => []

/-- The distances of the text from all prefixes of `b`, given those of the text before it. -/
def rows (b : List Char) (row : List Nat) : List Char → List Nat
  | [] => row
  | c :: cs =>
    match row with
    | [] => []
    | first :: rest => rows b ((first + 1) :: nextRow c (first + 1) first b rest) cs

/-- The least number of insertions, deletions and substitutions that turn `a` into `b`. -/
def distance (a b : List Char) : Nat :=
  ((rows b (List.range (b.length + 1)) a).getLast?).getD 0

/-- The greatest distance of a suggestion. -/
def reach : Nat := 2

/-- The first of the nearest candidates. -/
def nearest : List (Nat × String) → Option (Nat × String)
  | [] => none
  | c :: cs =>
    match nearest cs with
    | some d => if d.1 < c.1 then some d else some c
    | none => some c

/-- The nearest other name of a constant or variable, if one is near enough. -/
def suggest (name : String) (entries : List Entry) : Option String :=
  let others := entries.filter fun e => e.kind ≠ .inclusion && e.name ≠ name
  let measured := others.map fun e => (distance name.toList e.name.toList, e.name)
  (nearest (measured.filter (·.1 ≤ reach))).map (·.2)

end ConfigScript.Suggestion
