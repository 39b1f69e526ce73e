/-!
# Quoted text

A literal in single quotes. Inside it a backslash escapes a quote and another backslash; in front of
any other character it stands for itself. Writing escapes both characters, so every text has a
literal that reads back as the text.
-/

namespace ConfigScript.Script.Quoted

/-- Read up to the closing quote: the text and what follows the quote. -/
def read? : List Char → Option (List Char × List Char)
  | [] => none
  | '\'' :: r => some ([], r)
  | '\\' :: c :: r =>
    if c == '\'' || c == '\\' then (read? r).map fun (text, rest) => (c :: text, rest)
    else (read? (c :: r)).map fun (text, rest) => ('\\' :: text, rest)
  | c :: r => (read? r).map fun (text, rest) => (c :: text, rest)

/-- Escape the characters of a text. -/
def escape : List Char → List Char
  | [] => []
  | c :: cs => if c == '\\' || c == '\'' then '\\' :: c :: escape cs else c :: escape cs

/-- The literal of a text, with its quotes. -/
def quote (cs : List Char) : List Char := '\'' :: (escape cs ++ ['\''])

/-- What is left behind a quoted text is the end of the text. -/
theorem read?_suffix {cs text rest : List Char} (h : read? cs = some (text, rest)) :
    rest <:+ cs := by
  fun_induction read? cs generalizing text rest with
  | case1 => cases h
  | case2 r =>
    injection h with h
    injection h with _ h
    exact h ▸ List.suffix_cons _ _
  | case3 c r _ ih =>
    obtain ⟨⟨t, rest'⟩, hr, heq⟩ := Option.map_eq_some_iff.1 h
    injection heq with _ heq
    subst heq
    exact (ih hr).trans ((List.suffix_cons c r).trans (List.suffix_cons _ _))
  | case4 c r _ ih =>
    obtain ⟨⟨t, rest'⟩, hr, heq⟩ := Option.map_eq_some_iff.1 h
    injection heq with _ heq
    subst heq
    exact (ih hr).trans (List.suffix_cons _ _)
  | case5 c r _ _ ih =>
    obtain ⟨⟨t, rest'⟩, hr, heq⟩ := Option.map_eq_some_iff.1 h
    injection heq with _ heq
    subst heq
    exact (ih hr).trans (List.suffix_cons _ _)

/-- Reading a written literal gives the text back, whatever follows. -/
theorem read?_escape (cs rest : List Char) :
    read? (escape cs ++ '\'' :: rest) = some (cs, rest) := by
  induction cs with
  | nil => rfl
  | cons c cs ih =>
    by_cases h : (c == '\\' || c == '\'') = true
    · have swap : (c == '\'' || c == '\\') = true := by rwa [Bool.or_comm]
      simp only [escape, h, if_true, List.cons_append]
      rw [read?]
      simp [swap, ih]
    · simp only [escape, h, if_false, List.cons_append, Bool.false_eq_true]
      simp only [Bool.or_eq_true, beq_iff_eq, not_or] at h
      rw [read?]
      · simp [ih]
      · exact fun hc => h.2 hc
      · intro d r hc
        exact absurd hc h.1

end ConfigScript.Script.Quoted
