import ConfigScript.Script.Character
import ConfigScript.Script.Span

/-!
# Tokens

A token has a kind, the span it covers and the source text of that span. White space and comments
are no tokens. Text outside `<?php … ?>` is one token.
-/

namespace ConfigScript

/-- Operators and brackets. -/
inductive Punct where
  | identical | notIdentical | spaceship | powAssign | ellipsis | coalesceAssign
  | shiftLeftAssign | shiftRightAssign | nullsafeArrow
  | equal | notEqual | lessGreater | lessEqual | greaterEqual | andAnd | orOr | coalesce
  | doubleArrow | arrow | doubleColon | concatAssign | plusAssign | minusAssign | timesAssign
  | divAssign | modAssign | increment | decrement | pow | shiftLeft | shiftRight | orAssign
  | andAssign | xorAssign
  | openParen | closeParen | openBracket | closeBracket | openBrace | closeBrace | semicolon
  | comma | assign | less | greater | bang | dot | plus | minus | times
  | divide | percent | question | colon | silence | ampersand | pipe | caret | tilde
deriving DecidableEq, Repr

namespace Punct

/-- How the token is written. -/
def text : Punct → String
  | identical => "===" | notIdentical => "!==" | spaceship => "<=>" | powAssign => "**="
  | ellipsis => "..." | coalesceAssign => "??=" | shiftLeftAssign => "<<="
  | shiftRightAssign => ">>=" | nullsafeArrow => "?->"
  | equal => "==" | notEqual => "!=" | lessGreater => "<>" | lessEqual => "<="
  | greaterEqual => ">=" | andAnd => "&&" | orOr => "||" | coalesce => "??"
  | doubleArrow => "=>" | arrow => "->" | doubleColon => "::" | concatAssign => ".="
  | plusAssign => "+=" | minusAssign => "-=" | timesAssign => "*=" | divAssign => "/="
  | modAssign => "%=" | increment => "++" | decrement => "--" | pow => "**"
  | shiftLeft => "<<" | shiftRight => ">>" | orAssign => "|=" | andAssign => "&="
  | xorAssign => "^="
  | openParen => "(" | closeParen => ")" | openBracket => "[" | closeBracket => "]"
  | openBrace => "\x7b" | closeBrace => "\x7d" | semicolon => ";" | comma => "," | assign => "="
  | less => "<" | greater => ">" | bang => "!" | dot => "." | plus => "+" | minus => "-"
  | times => "*" | divide => "/" | percent => "%" | question => "?" | colon => ":" | silence => "@"
  | ampersand => "&" | pipe => "|" | caret => "^" | tilde => "~"

/-- All of them, the longer ones first, so that the first one that matches is the longest. -/
def all : List Punct :=
  [identical, notIdentical, spaceship, powAssign, ellipsis, coalesceAssign, shiftLeftAssign,
    shiftRightAssign, nullsafeArrow, equal, notEqual, lessGreater, lessEqual, greaterEqual,
    andAnd, orOr, coalesce, doubleArrow, arrow, doubleColon, concatAssign, plusAssign,
    minusAssign, timesAssign, divAssign, modAssign, increment, decrement, pow, shiftLeft,
    shiftRight, orAssign, andAssign, xorAssign, openParen, closeParen, openBracket,
    closeBracket, openBrace, closeBrace, semicolon, comma, assign, less, greater, bang, dot,
    plus, minus, times, divide, percent, question, colon, silence, ampersand, pipe, caret, tilde]

theorem mem_all (p : Punct) : p ∈ all := by cases p <;> decide

theorem text_ne_empty (p : Punct) : p.text.toList ≠ [] := by cases p <;> decide

end Punct

/-- Piece of a string literal; a double-quoted literal may hold variables. -/
inductive Part where
  | text (s : String)
  | var (name : String)
deriving DecidableEq, Repr

/-- What a token is. -/
inductive TokenKind where
  /-- Text outside the script. -/
  | inlineHtml
  | openTag
  | closeTag
  | var (name : String)
  | ident (name : String)
  | str (parts : List Part)
  | int (value : Int64)
  | float (value : Float)
  | punct (p : Punct)
deriving DecidableEq, Repr

/-- A token with the place and the text it was read from. -/
structure Token where
  kind : TokenKind
  span : Span
  text : List Char
deriving DecidableEq, Repr

namespace Token

/-- Whether the token is `p`. -/
def isPunct (t : Token) (p : Punct) : Bool := t.kind == .punct p

/-- The word of an identifier in lower case; keywords do not depend on case. -/
def keyword? (t : Token) : Option String :=
  match t.kind with
  | .ident name => some (String.ofList (Script.lower name.toList))
  | _ => none

/-- Whether the token is the keyword `word`, which is given in lower case. -/
def isKeyword (t : Token) (word : String) : Bool := t.keyword? == some word

/-- How a message names the token. -/
def describe (t : Token) : String :=
  match t.kind with
  | .inlineHtml => "inline HTML"
  | _ => String.ofList t.text

end Token

end ConfigScript
