import ConfigScript.Proofs.Lexing.Prefix

/-!
# Gaps

A gap is a text of script without tokens: white space and comments that are closed within it. It is
cut into pieces without tokens *whatever follows it*, so gaps may be put between tokens and beside
each other. Whether a text is one is computed by scanning it once (`isGapText`, sound by
`gap_of_isGapText`).
-/

namespace ConfigScript.Script

/-- Script that has no tokens, whatever follows it. -/
def Gap (cs : List Char) : Prop := ∀ rest p, Lexes rest .script p cs [] .script

namespace Gap

variable {as bs : List Char}

theorem nil : Gap [] := fun _ _ ↦ .done

theorem append (ha : Gap as) (hb : Gap bs) : Gap (as ++ bs) := fun _ _ ↦
  (ha _ _).append (hb _ _)

/-- White space is a gap. -/
theorem blank {c : Char} (h : isGap c) : Gap [c] := by
  intro rest p
  have here : piece .script c ([] ++ ([] ++ ([] ++ rest))) = .ok ⟨[], rest, rest, .script⟩ := by
    have start : Start.of c rest = .blank := by simp [Start.of, h]
    show scriptPiece c rest = _
    rw [scriptPiece, start]
    rfl
  exact @Lexes.piece rest .script .script .script p c [] [] [] [] [] here .done

theorem blanks {cs : List Char} (h : ∀ c ∈ cs, isGap c) : Gap cs := by
  induction cs with
  | nil => exact nil
  | cons c cs ih =>
    exact (blank (h c List.mem_cons_self)).append (ih fun d hd ↦ h d (List.mem_cons_of_mem c hd))

end Gap

/-- A closed block comment stays closed with more text behind it. -/
theorem afterBlockComment?_append {cs r : List Char} (h : afterBlockComment? cs = some r)
    (rest : List Char) : afterBlockComment? (cs ++ rest) = some (r ++ rest) := by
  fun_induction afterBlockComment? cs with
  | case1 => cases h
  | case2 r' =>
    injection h with h
    subst h
    rfl
  | case3 c r' hne ih =>
    rw [List.cons_append, afterBlockComment?]
    · exact ih h
    · rintro s hc hs
      subst hc
      cases r' with
      | nil => simp [afterBlockComment?] at h
      | cons d r' =>
        rw [List.cons_append] at hs
        injection hs with hd _
        exact hne r' rfl (by rw [hd])

/-- A block comment is a gap. -/
theorem Gap.blockComment {body : List Char} (h : afterBlockComment? body = some []) :
    Gap ('/' :: '*' :: body) := by
  intro rest p
  have here : piece .script '/' (('*' :: body) ++ ([] ++ ([] ++ rest))) =
      .ok ⟨[], rest, rest, .script⟩ := by
    show blockCommentPiece ('*' :: (body ++ rest)) = _
    have closed := afterBlockComment?_append h rest
    rw [List.nil_append] at closed
    rw [blockCommentPiece, List.drop_succ_cons, List.drop_zero, closed]
    rfl
  have cut := @Lexes.piece rest .script .script .script p '/' ('*' :: body) [] [] [] [] here .done
  simpa using cut

/-- A line comment ends at the line feed behind it. -/
theorem afterLineComment_append {body : List Char} (h : afterLineComment body = [])
    (rest : List Char) : afterLineComment (body ++ '\n' :: rest) = '\n' :: rest := by
  fun_induction afterLineComment body with
  | case1 => rfl
  | case2 => cases h
  | case3 => cases h
  | case4 c r hnl htag ih =>
    rw [List.cons_append, afterLineComment]
    · exact ih h
    · exact hnl
    · rintro s hc hs
      cases r with
      | nil => exact absurd hs (by simp)
      | cons d r =>
        rw [List.cons_append] at hs
        injection hs with hd _
        exact htag r hc (by rw [hd])

/-- A line comment with its line break is a gap. Without the line break, what follows would be part of
it. -/
theorem Gap.lineComment {body : List Char} (h : afterLineComment body = []) :
    Gap ('/' :: '/' :: (body ++ ['\n'])) := by
  intro rest p
  have here : piece .script '/' (('/' :: body) ++ ([] ++ (['\n'] ++ rest))) =
      .ok ⟨[], '\n' :: rest, '\n' :: rest, .script⟩ := by
    have ends : afterLineComment ('/' :: (body ++ '\n' :: rest)) = '\n' :: rest := by
      rw [afterLineComment]
      · exact afterLineComment_append h rest
      · exact fun h ↦ absurd h (by decide)
      · exact fun _ h _ ↦ absurd h (by decide)
    show Except.ok (Piece.gap (afterLineComment ('/' :: (body ++ '\n' :: rest)))) = _
    rw [ends]
    rfl
  have cut := Lexes.piece (p := p) here ((Gap.blank (c := '\n') rfl) rest _)
  simpa using cut

/-! ### Recognizing a gap -/

/-- Where a scan for gaps stands: between comments, in a block comment or in a line comment. -/
inductive GapState where
  | between
  | block
  | line
deriving DecidableEq, Repr

/-- Whether the text is a gap, scanned from left to right. -/
def isGapText : GapState → List Char → Bool
  | .between, [] => true
  | .between, '/' :: '*' :: cs => isGapText .block cs
  | .between, '/' :: '/' :: cs => isGapText .line cs
  | .between, c :: cs => isGap c && isGapText .between cs
  | .block, '*' :: '/' :: cs => isGapText .between cs
  | .block, _ :: cs => isGapText .block cs
  | .line, '\n' :: cs => isGapText .between cs
  | .line, '?' :: '>' :: _ => false
  | .line, _ :: cs => isGapText .line cs
  | _, [] => false

/-- What a scan from each state says of the text: in a comment, that the text closes it and goes on
as a gap. -/
def GapState.Finds : GapState → List Char → Prop
  | .between, cs => Gap cs
  | .block, cs => ∃ body tail, cs = body ++ tail ∧ afterBlockComment? body = some [] ∧ Gap tail
  | .line, cs => ∃ body tail, cs = body ++ '\n' :: tail ∧ afterLineComment body = [] ∧ Gap tail

/-- A scan finds from each state what it promises, by induction on the text. -/
theorem finds_of_isGapText (s : GapState) (cs : List Char) : isGapText s cs → s.Finds cs := by
  fun_induction isGapText s cs with
  | case1 => exact fun _ ↦ Gap.nil
  | case2 cs ih =>
    intro h
    obtain ⟨body, tail, rfl, closed, ht⟩ := ih h
    exact (Gap.blockComment closed).append ht
  | case3 cs ih =>
    intro h
    obtain ⟨body, tail, rfl, ends, ht⟩ := ih h
    have whole := (Gap.lineComment ends).append ht
    simpa [GapState.Finds] using whole
  | case4 c cs _ _ ih =>
    intro h
    rw [Bool.and_eq_true] at h
    exact (Gap.blank h.1).append (ih h.2)
  | case5 cs ih => exact fun h ↦ ⟨['*', '/'], cs, rfl, rfl, ih h⟩
  | case6 c cs hne ih =>
    intro h
    obtain ⟨body, tail, rfl, closed, ht⟩ := ih h
    refine ⟨c :: body, tail, rfl, ?_, ht⟩
    rw [afterBlockComment?]
    · exact closed
    · rintro r hc rfl
      exact hne (r ++ tail) hc rfl
  | case7 cs ih => exact fun h ↦ ⟨[], cs, rfl, rfl, ih h⟩
  | case8 => exact fun h ↦ absurd h (by decide)
  | case9 c cs hnl htag ih =>
    intro h
    obtain ⟨body, tail, rfl, ends, ht⟩ := ih h
    refine ⟨c :: body, tail, rfl, ?_, ht⟩
    rw [afterLineComment]
    · exact ends
    · exact hnl
    · rintro r hc rfl
      exact htag (r ++ '\n' :: tail) hc rfl
  | case10 => exact fun h ↦ absurd h (by simp)

theorem gap_of_isGapText {cs : List Char} (h : isGapText .between cs) : Gap cs :=
  finds_of_isGapText .between cs h

end ConfigScript.Script
