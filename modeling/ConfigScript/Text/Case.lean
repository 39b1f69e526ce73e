import ConfigScript.Text.CaseTable

/-!
# Letter case

Lower and upper case of texts by the Unicode mappings. The lower case of a capital sigma depends on
its place: at the end of a word it is the final sigma. What is a word is judged by the characters
around it, those without a say in the matter skipped.
-/

namespace ConfigScript.Text

/-- Whether one of the ranges holds `n`. -/
def inRanges (ranges : List (Nat × Nat)) (n : Nat) : Bool :=
  ranges.any fun (first, last) => first ≤ n && n ≤ last

/-- Whether the character has case. -/
def isCased (c : Char) : Bool := inRanges casedRanges c.toNat

/-- Whether the character is skipped in the search for the letters around another one. -/
def isCaseIgnorable (c : Char) : Bool := inRanges caseIgnorableRanges c.toNat

/-- The character that the runs map `c` to. -/
def mapByRuns (runs : List CaseRun) (c : Char) : Char :=
  let n := c.toNat
  match runs.find? fun r => r.first ≤ n && n ≤ r.last && (n - r.first) % r.step == 0 with
  | some r => Char.ofNat (n + r.shift).toNat
  | none => c

/-- The mapping of `c` by a list of special cases, else by runs. -/
def mapCase (special : List (Nat × List Nat)) (runs : List CaseRun) (c : Char) : List Char :=
  match special.find? (·.1 == c.toNat) with
  | some (_, ns) => ns.map Char.ofNat
  | none => [mapByRuns runs c]

/-- The upper case of a character. -/
def upperChar (c : Char) : List Char :=
  if c.toNat < 0x80 then [c.toUpper] else mapCase upperSpecial upperRuns c

/-- The lower case of a character, wherever it stands. -/
def lowerChar (c : Char) : List Char :=
  if c.toNat < 0x80 then [c.toLower] else mapCase lowerSpecial lowerRuns c

/-- The upper case of a text. -/
def upperCase (cs : List Char) : List Char := cs.flatMap upperChar

/-- Whether the first character that has a say is a letter with case. -/
def touchesCased (cs : List Char) : Bool := (cs.dropWhile isCaseIgnorable).head?.any isCased

/-- The lower case of `c`, which stands between `before` (read backwards) and `after`. -/
def lowerBetween (before : List Char) (c : Char) (after : List Char) : List Char :=
  if c == 'Σ' then if touchesCased before && !touchesCased after then ['ς'] else ['σ']
  else lowerChar c

/-- The lower case of a text that stands behind `before`, which is read backwards. -/
def lowerCaseFrom (before : List Char) : List Char → List Char
  | [] => []
  | c :: cs => lowerBetween before c cs ++ lowerCaseFrom (c :: before) cs

/-- The lower case of a text. -/
def lowerCase (cs : List Char) : List Char := lowerCaseFrom [] cs

end ConfigScript.Text
