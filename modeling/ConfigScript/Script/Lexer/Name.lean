import ConfigScript.Script.Character

/-!
# Names

A qualified name is a chain of names separated by backslashes. It may begin with one backslash,
which is not part of the name.
-/

namespace ConfigScript.Script

/-- A plain name and what follows it. -/
def name (cs : List Char) : List Char × List Char :=
  (cs.takeWhile isNameChar, cs.dropWhile isNameChar)

/-- The rest of a qualified name, and what follows it. A backslash belongs to it only in front of a
name. -/
def qualified : List Char → List Char × List Char
  | [] => ([], [])
  | c :: r =>
    if isNameChar c || (c == '\\' && startsName r) then
      let (text, rest) := qualified r
      (c :: text, rest)
    else ([], c :: r)

/-- The name that a qualified text stands for. -/
def unrooted : List Char → List Char
  | '\\' :: r => r
  | cs => cs

theorem name_suffix (cs : List Char) : (name cs).2 <:+ cs := List.dropWhile_suffix _

theorem name_append (cs : List Char) : (name cs).1 ++ (name cs).2 = cs :=
  List.takeWhile_append_dropWhile

/-- A qualified name and what is left are the whole text. -/
theorem qualified_append (cs : List Char) : (qualified cs).1 ++ (qualified cs).2 = cs := by
  induction cs with
  | nil => rfl
  | cons c r ih =>
    rw [qualified]
    split
    · simpa using ih
    · rfl

theorem qualified_suffix (cs : List Char) : (qualified cs).2 <:+ cs :=
  ⟨_, qualified_append cs⟩

end ConfigScript.Script
