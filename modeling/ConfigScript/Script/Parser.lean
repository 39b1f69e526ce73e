import ConfigScript.Script.Lexer
import ConfigScript.Script.Parser.Statement

/-!
# From source text to a syntax tree

A script is tokenized as a whole before anything is parsed, so that a fault of the tokens wins over
one of the syntax. A text that ends too early is reported at its last token.
-/

namespace ConfigScript.Script

/-- Where the end of the tokens is reported: at the last of them. -/
def endPlace (tokens : List Token) : Nat × Nat :=
  match tokens.getLast? with
  | some t => (t.span.line, t.span.column)
  | none => (1, 1)

/-- Place a misfit in a text with the given tokens. -/
def Misfit.toError (tokens : List Token) : Misfit → ScriptError
  | .atEnd => ⟨none, (endPlace tokens).1, (endPlace tokens).2, .unexpectedEnd⟩
  | .here span fault => .atSpan span fault

/-- The statements that the tokens make up. -/
def parseTokens (tokens : List Token) : Except ScriptError (List Stmt) :=
  (statements ⟨default, tokens⟩).mapError (Misfit.toError tokens)

/-- The statements of a source text. -/
def parse (source : List Char) : Except ScriptError (List Stmt) :=
  tokenize source >>= parseTokens

end ConfigScript.Script
