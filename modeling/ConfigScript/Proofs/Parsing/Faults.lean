import ConfigScript.Script.Parser

/-!
# Faults of a text

What makes a text unreadable is found in the text: files that are missing, nested too deep or no text
at all are found by running it (`Fault.IsOfText`). Every way in which cutting a text into tokens or
parsing these can fail is of that kind (`Script.isOfText_of_parse`).

Most of the parser need not be looked at. A statement that cannot be read by its grammar is skipped,
whatever is wrong with it, so only what is wrong with the skipping gets out.
-/

namespace ConfigScript

/-- The fault lies in a text, and not in the files that are loaded when it is run. -/
def Fault.IsOfText : Fault → Prop
  | .missingRequire _ | .includeDepthExceeded | .invalidUtf8 => False
  | .unexpectedCharacter _ | .unterminatedString | .unterminatedComment | .unsupportedSyntax _
  | .unexpectedToken _ | .unexpectedEnd => True

/-- Whatever the computation fails with has the property. -/
def FailsWith {ε α : Type} (P : ε → Prop) (x : Except ε α) : Prop := ∀ e, x = .error e → P e

namespace FailsWith

variable {ε ε' α β : Type} {P : ε → Prop} {x : Except ε α} {e : ε}

theorem ok (a : α) : FailsWith P (.ok a : Except ε α) := fun e h ↦ by cases h

theorem error (h : P e) : FailsWith P (.error e : Except ε α) := fun _ same ↦ Except.error.inj same ▸ h

/-- A computation in two steps fails with `P` if both of them do. -/
theorem bind {f : α → Except ε β} (h : FailsWith P x) (more : ∀ a, x = .ok a → FailsWith P (f a)) :
    FailsWith P (x >>= f) := by
  cases x with
  | error e => exact error (h e rfl)
  | ok a => exact more a rfl

/-- A function on the results leaves what a computation fails with. -/
theorem map (f : α → β) (h : FailsWith P x) : FailsWith P (x.map f) := by
  cases x with
  | error e => exact error (h e rfl)
  | ok a => exact ok _

end FailsWith

/-- What fails with another error fails. -/
theorem exists_of_mapError {ε ε' α : Type} {f : ε → ε'} {x : Except ε α} {e : ε'}
    (h : x.mapError f = .error e) : ∃ e₀, x = .error e₀ ∧ f e₀ = e := by
  cases x with
  | error e₀ => exact ⟨e₀, rfl, Except.error.inj h⟩
  | ok a => cases h

namespace Script

/-! ### Tokens -/

/-- Whatever the computation fails with lies in the text. -/
abbrev FailsInText {α : Type} (x : Except Fault α) : Prop := FailsWith Fault.IsOfText x

open FailsWith

/-- A name in braces fails in the text. -/
theorem failsInText_bracedName (cs : List Char) : FailsInText (bracedName cs) := by
  unfold bracedName
  split
  · exact error trivial
  · exact ok _
  · exact error trivial

/-- What a dollar sign or brace in a text leads to fails in the text. -/
theorem failsInText_interpolation {c : Char} {r : List Char} {x : Except Fault (List Char × List Char)}
    (h : interpolation? c r = some x) : FailsInText x := by
  unfold interpolation? at h
  split at h
  · split at h
    · exact Option.some.inj h ▸ ok _
    split at h
    · exact Option.some.inj h ▸ failsInText_bracedName _
    · cases h
  · exact Option.some.inj h ▸ failsInText_bracedName _
  · cases h

/-- A text with variables inside fails in the text. -/
theorem failsInText_interpolated (closing : Option Char) (cs : List Char) :
    FailsInText (interpolated closing cs) := by
  fun_induction interpolated closing cs with
  | case1 => exact error trivial
  | case2 => exact ok _
  | case3 => exact ok _
  | case4 c r _ _ _ e hr ih => exact error (ih e hr)
  | case5 => exact ok _
  | case6 c r _ _ e found => exact error (failsInText_interpolation found e rfl)
  | case7 c r _ _ n s _ _ e hr ih => exact error (ih e hr)
  | case8 => exact ok _
  | case9 c r _ _ _ e hr ih => exact error (ih e hr)
  | case10 => exact ok _

/-- A heredoc fails in the text, whether for its label, its indentation or its end. -/
theorem failsInText_heredoc (cs : List Char) : FailsInText (Heredoc.read cs) := by
  unfold Heredoc.read
  dsimp only
  split
  · exact error trivial
  refine bind ?_ fun r _ ↦ bind ?_ fun r _ ↦ ?_
  · unfold Heredoc.closeQuote
    split
    · exact ok _
    · split
      · exact ok _
      · exact error trivial
    · exact error trivial
  · unfold Heredoc.afterBreak
    split
    · exact ok _
    · exact ok _
    · exact error trivial
  split
  · exact error trivial
  · refine bind ?_ fun _ _ ↦ ok _
    unfold Heredoc.bodyParts
    split
    · exact ok _
    · exact (failsInText_interpolated _ _).map _

/-- A number fails in the text. -/
theorem failsInText_number (c : Char) (r : List Char) : FailsInText (number c r) := by
  unfold number
  split
  · split
    · dsimp only
      split
      · exact error trivial
      · exact ok _
    · exact ok _
  · exact ok _

/-- A piece that is read by a function fails as that function does. -/
theorem failsInText_ofRead {α : Type} {x : Except Fault (α × List Char)} (kind : α → TokenKind)
    (h : FailsInText x) : FailsInText (Piece.ofRead kind x) := by
  unfold Piece.ofRead
  split
  · exact ok _
  · exact error (h _ rfl)

/-- Whatever a character leads to fails in the text: one case for each that begins a piece. -/
theorem failsInText_piece (m : Mode) (c : Char) (r : List Char) : FailsInText (piece m c r) := by
  cases m with
  | html => exact ok _
  | script =>
    show FailsInText (scriptPiece c r)
    unfold scriptPiece
    cases Start.of c r with
    | blank | closeTag | lineComment | name => exact ok _
    | hashBracket | backtick => exact error trivial
    | blockComment =>
      dsimp only [blockCommentPiece]
      split
      · exact ok _
      · exact error trivial
    | dollar =>
      dsimp only [variablePiece]
      split
      · exact ok _
      · exact error trivial
    | singleQuote =>
      dsimp only [singleQuotedPiece]
      split
      · exact ok _
      · exact error trivial
    | doubleQuote => exact failsInText_ofRead _ (failsInText_interpolated _ _)
    | heredoc => exact failsInText_ofRead _ (failsInText_heredoc _)
    | number => exact failsInText_ofRead _ (failsInText_number c r)
    | punct =>
      dsimp only [punctPiece]
      split
      · exact ok _
      · exact error trivial

/-- A text that is not cut into tokens has its fault in the text. -/
theorem isOfText_of_tokenize {source : List Char} {e : ScriptError} (h : tokenize source = .error e) :
    e.fault.IsOfText := by
  have any : ∀ m p cs, FailsWith (fun e : ScriptError ↦ e.fault.IsOfText) (tokensFrom m p cs) := by
    intro m p cs
    fun_induction tokensFrom m p cs with
    | case1 => exact ok _
    | case2 m p c r fault cut => exact error (failsInText_piece m c r fault cut)
    | case3 m p c r pc cut _ _ _ e more ih => exact error (ih e more)
    | case4 => exact ok _
  exact any .html .start source e h

/-! ### Statements -/

/-- What does not fit lies in the text. -/
def Misfit.IsOfText : Misfit → Prop
  | .atEnd => True
  | .here _ fault => fault.IsOfText

/-- Whatever the parser fails with lies in the text. -/
abbrev MisfitsInText {α : Type} (x : Parse α) : Prop := FailsWith Misfit.IsOfText x

/-- Reading one more token misfits in the text, at its end. -/
theorem misfitsInText_advance (c : Cursor) : MisfitsInText c.advance := by
  unfold Cursor.advance
  split
  · exact error trivial
  · exact ok _

/-- Skipping misfits in the text: the end is reached, or a bracket closes that was not opened. -/
theorem misfitsInText_skipRest (opened : List Token) (c : Cursor) :
    MisfitsInText (skipRest opened c) := by
  rw [skipRest]
  split
  · rename_i e read
    split
    · exact ok _
    · exact error (misfitsInText_advance c e read)
  rename_i t read
  have lt := t.shorter
  have go : ∀ more, MisfitsInText ((skipRest more t.next).map fun rest ↦ (t.andMaybe rest).peeked) :=
    fun more ↦ (misfitsInText_skipRest more t.next).map _
  dsimp only
  split
  · exact go _
  split
  · split
    · exact ok _
    split
    · exact ok _
    · exact go _
  · split
    · exact go _
    split
    · exact ok _
    · exact go _
termination_by c.size

/-- A statement that is skipped misfits in the text. -/
theorem misfitsInText_opaqueStatement (c : Cursor) : MisfitsInText (opaqueStatement c) := by
  refine (misfitsInText_advance c).bind fun t _ ↦ ?_
  split
  · exact error trivial
  · exact (misfitsInText_skipRest _ _).bind fun _ _ ↦ ok _

mutual

/-- A statement misfits in the text. By recursion on the number of tokens ahead. -/
theorem misfitsInText_statement (c : Cursor) : MisfitsInText (statement c) := by
  rw [statement]
  refine (misfitsInText_advance c).bind fun t _ ↦ ?_
  have lt := t.shorter
  dsimp only
  split
  · exact ok _
  · exact ok _
  · exact ok _
  · exact ok _
  · exact (misfitsInText_block t.next).bind fun _ _ ↦ ok _
  · exact error trivial
  · split
    · exact ok _
    · exact (misfitsInText_opaqueStatement c).bind fun _ _ ↦ ok _
termination_by 2 * c.size

/-- A block misfits in the text. -/
theorem misfitsInText_block (c : Cursor) : MisfitsInText (block c) := by
  rw [block]
  split
  · exact ok _
  · refine (misfitsInText_statement c).bind fun s _ ↦ ?_
    have lt := s.shorter
    exact (misfitsInText_block s.next).bind fun _ _ ↦ ok _
termination_by 2 * c.size + 1

end

/-- The statements of a script misfit in the text. -/
theorem misfitsInText_statements (c : Cursor) : MisfitsInText (statements c) := by
  rw [statements]
  split
  · exact ok _
  · refine (misfitsInText_statement c).bind fun s _ ↦ ?_
    have lt := s.shorter
    exact (misfitsInText_statements s.next).bind fun _ _ ↦ ok _
termination_by c.size

/-- If a text cannot be parsed, the fault lies in the text. -/
theorem isOfText_of_parse {source : List Char} {e : ScriptError} (h : parse source = .error e) :
    e.fault.IsOfText := by
  rw [parse] at h
  cases cut : tokenize source with
  | error e' =>
    rw [cut] at h
    exact Except.error.inj h ▸ isOfText_of_tokenize cut
  | ok ts =>
    rw [cut] at h
    obtain ⟨misfit, read, rfl⟩ := exists_of_mapError (f := Misfit.toError ts) h
    have inText := misfitsInText_statements _ misfit read
    cases misfit with
    | atEnd => trivial
    | here span fault => exact inText

end Script

end ConfigScript
