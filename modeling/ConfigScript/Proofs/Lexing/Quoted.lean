import ConfigScript.Proofs.Lexing.Word

/-!
# Quoted texts in a script

Wherever the lexer is in script mode at a quoted text, it cuts that off as one token, which is the text
without its quotes and escapes, and goes on behind it (`tokensFrom_quote`). Nothing is asked of what
follows: the closing quote alone ends the token, as `Quoted.escape` leaves no other quote bare.
-/

namespace ConfigScript.Script

/-- A quoted text is one token, with exactly that text for its span, and the lexer goes on behind it. -/
theorem tokensFrom_quote (front cs rest : List Char) :
    ∃ s : Span, s.start = Text.byteLength front ∧
      s.stop = Text.byteLength front + Text.byteLength (Quoted.quote cs) ∧
      s.text (front ++ Quoted.quote cs ++ rest) = Quoted.quote cs ∧
      tokensFrom .script (Place.start.past front) (Quoted.quote cs ++ rest) =
        (tokensFrom .script (Place.start.past (front ++ Quoted.quote cs)) rest).map
          (⟨.str [.text (String.ofList cs)], s, Quoted.quote cs⟩ :: ·) := by
  have start : (Place.start.past front).offset = Text.byteLength front := by
    rw [Place.offset_past, Place.start, Nat.zero_add]
  have stop : ((Place.start.past front).past (Quoted.quote cs)).offset =
      Text.byteLength front + Text.byteLength (Quoted.quote cs) := by
    rw [Place.offset_past, start]
  refine ⟨Span.ofPlace (Place.start.past front)
    ((Place.start.past front).past (Quoted.quote cs)).offset, start, stop, ?_, ?_⟩
  · rw [Span.text, Span.ofPlace, start, stop, Text.sliceBytes_append]
  · rw [((fits_quote cs rest).lexes (Place.start.past front)).tokensFrom_append, Place.past_append]
    rfl

/-- Backslashes in front of a quote and at the end of the text, and a character of two bytes. -/
example : (tokensFrom .script .start (Quoted.quote "é\\'\\".toList ++ [';'])).toOption.map
    (·.map fun t ↦ (t.kind, t.span.start, t.span.stop)) =
      some [(.str [.text "é\\'\\"], 0, 10), (.punct .semicolon, 10, 11)] := by
  decide +kernel

end ConfigScript.Script
