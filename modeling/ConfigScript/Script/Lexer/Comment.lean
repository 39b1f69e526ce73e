/-!
# Comments

A comment to the end of the line stops in front of the line feed, and also in front of a closing
tag. A comment between `/*` and `*/` may span lines and does not nest.
-/

namespace ConfigScript.Script

/-- What follows a line comment. -/
def afterLineComment : List Char → List Char
  | [] => []
  | '\n' :: r => '\n' :: r
  | '?' :: '>' :: r => '?' :: '>' :: r
  | _ :: r => afterLineComment r

/-- What follows a block comment, given what follows its opening; `none` if it is never closed. -/
def afterBlockComment? : List Char → Option (List Char)
  | [] => none
  | '*' :: '/' :: r => some r
  | _ :: r => afterBlockComment? r

theorem afterLineComment_suffix (cs : List Char) : afterLineComment cs <:+ cs := by
  fun_induction afterLineComment cs with
  | case1 => exact List.suffix_refl _
  | case2 => exact List.suffix_refl _
  | case3 => exact List.suffix_refl _
  | case4 c r _ _ ih => exact ih.trans (List.suffix_cons c r)

/-- What is left behind a comment is the end of the text. -/
theorem afterBlockComment?_suffix {cs rest : List Char} (h : afterBlockComment? cs = some rest) :
    rest <:+ cs := by
  fun_induction afterBlockComment? cs with
  | case1 => cases h
  | case2 r =>
    injection h with h
    subst h
    exact (List.suffix_cons _ _).trans (List.suffix_cons _ _)
  | case3 c r _ ih => exact (ih h).trans (List.suffix_cons c r)

end ConfigScript.Script
