import ConfigScript.Script.Lexer.Comment
import ConfigScript.Script.Lexer.Heredoc
import ConfigScript.Script.Lexer.Number
import ConfigScript.Script.Lexer.Quoted
import ConfigScript.Text.Blank

/-!
# From source text to tokens

The source is cut into pieces. A piece has a text, which may be one token (or two, for `<?=`, or
none, for white space and comments), and a gap, the line break that a tag takes with it. Text and
gap of a piece and the pieces after it make up the source again, and the text is never empty, so
cutting ends.

Outside the script everything up to the next opening tag is one piece.
-/

namespace ConfigScript.Script

/-- Whether the text at hand is script or text around it. -/
inductive Mode where
  | html
  | script
deriving DecidableEq, Repr

/-- What is cut off at once: the kinds of the tokens that its text stands for, what follows the
text, what follows the gap behind the text, and how to go on there. -/
structure Piece where
  kinds : List TokenKind
  afterText : List Char
  rest : List Char
  mode : Mode

/-- A piece of script that is one token. -/
def Piece.token (kind : TokenKind) (rest : List Char) : Piece := ⟨[kind], rest, rest, .script⟩

/-- A piece of script that is one token, from what a reader of such tokens yields. -/
def Piece.ofRead {α : Type} (kind : α → TokenKind) (x : Except Fault (α × List Char)) :
    Except Fault Piece :=
  match x with
  | .ok (a, rest) => .ok (token (kind a) rest)
  | .error fault => .error fault

/-- A piece of script between tokens. -/
def Piece.gap (rest : List Char) : Piece := ⟨[], rest, rest, .script⟩

/-- The text before a suffix of it. -/
def consumed (cs rest : List Char) : List Char := cs.take (cs.length - rest.length)

/-! ### Tags -/

/-- The two opening tags: `<?php` and `<?=`. -/
inductive Opening where
  | full
  | echo
deriving DecidableEq, Repr

/-- The opening tag that the text begins with. The long one does not depend on case and is followed
by white space or nothing. -/
def opening? : List Char → Option Opening
  | '<' :: '?' :: '=' :: _ => some .echo
  | '<' :: '?' :: p :: h :: q :: r =>
    if sameWord [p, h, q] ['p', 'h', 'p'] && r.head?.all Text.isBlank then some .full else none
  | _ => none

/-- What begins with the next opening tag. -/
def afterHtml : List Char → List Char
  | [] => []
  | c :: r => if (opening? (c :: r)).isSome then c :: r else afterHtml r

/-- What follows the white space that an opening tag takes with it. -/
def afterTagGap : List Char → List Char
  | '\r' :: '\n' :: r => r
  | c :: r => if isTagGap c then r else c :: r
  | [] => []

/-- What follows the line break that a closing tag takes with it. -/
def afterTagBreak : List Char → List Char
  | '\n' :: r => r
  | '\r' :: '\n' :: r => r
  | r => r

/-- The next piece outside the script. -/
def htmlPiece (c : Char) (r : List Char) : Piece :=
  match opening? (c :: r) with
  | none => ⟨[.inlineHtml], afterHtml r, afterHtml r, .html⟩
  | some .echo => ⟨[.openTag, .ident "echo"], r.drop 2, r.drop 2, .script⟩
  | some .full => ⟨[.openTag], r.drop 4, afterTagGap (r.drop 4), .script⟩

/-! ### Script -/

/-- The operator or bracket that the text begins with, and what follows it. -/
def punct? (cs : List Char) : Option (Punct × List Char) :=
  (Punct.all.find? fun p => p.text.toList.isPrefixOf cs).map fun p =>
    (p, cs.drop p.text.toList.length)

/-- A variable, given what follows the dollar sign. -/
def variablePiece (r : List Char) : Except Fault Piece :=
  if startsName r then .ok (.token (.var (String.ofList (name r).1)) (name r).2)
  else .error (.unsupportedSyntax .variableVariables)

/-- A qualified name that begins with `c`. -/
def namePiece (c : Char) (r : List Char) : Piece :=
  .token (.ident (String.ofList (unrooted (c :: (qualified r).1)))) (qualified r).2

/-- A literal in double quotes, given what follows the opening quote. -/
def doubleQuotedPiece (r : List Char) : Except Fault Piece :=
  Piece.ofRead (fun fs => .str (Fragment.parts fs)) (interpolated (some '"') r)

/-- A literal in single quotes, given what follows the opening quote. -/
def singleQuotedPiece (r : List Char) : Except Fault Piece :=
  match Quoted.read? r with
  | some (text, rest) => .ok (.token (.str [.text (String.ofList text)]) rest)
  | none => .error .unterminatedString

/-- A block comment, given what follows its first character. -/
def blockCommentPiece (r : List Char) : Except Fault Piece :=
  match afterBlockComment? (r.drop 1) with
  | some rest => .ok (.gap rest)
  | none => .error .unterminatedComment

/-- An operator or bracket that begins with `c`. -/
def punctPiece (c : Char) (r : List Char) : Except Fault Piece :=
  match punct? (c :: r) with
  | some (p, rest) => .ok (.token (.punct p) rest)
  | none => .error (.unexpectedCharacter c)

/-- What a piece of script is, judged by its first characters. -/
inductive Start where
  | blank | closeTag | lineComment | blockComment | hashBracket | dollar | singleQuote
  | doubleQuote | backtick | heredoc | number | name | punct
deriving DecidableEq, Repr

/-- What begins with `c` and goes on with `r`. -/
def Start.of (c : Char) (r : List Char) : Start :=
  if isGap c then .blank
  else if c == '?' && r.head? == some '>' then .closeTag
  -- The mark `#[` opens an attribute; any other number sign begins a comment.
  else if (c == '#' && r.head? != some '[') || (c == '/' && r.head? == some '/') then .lineComment
  else if c == '/' && r.head? == some '*' then .blockComment
  else if c == '#' then .hashBracket
  else if c == '$' then .dollar
  else if c == '\'' then .singleQuote
  else if c == '"' then .doubleQuote
  else if c == '\x60' then .backtick
  else if c == '<' && ['<', '<'].isPrefixOf r then .heredoc
  -- A point in front of a digit belongs to a number, any other one is an operator.
  else if c.isDigit || (c == '.' && r.head?.any Char.isDigit) then .number
  else if isNameStart c || (c == '\\' && startsName r) then .name
  else .punct

/-- The next piece of the script, which begins with `c`. -/
def scriptPiece (c : Char) (r : List Char) : Except Fault Piece :=
  match Start.of c r with
  | .blank => .ok (.gap r)
  | .closeTag => .ok ⟨[.closeTag], r.drop 1, afterTagBreak (r.drop 1), .html⟩
  | .lineComment => .ok (.gap (afterLineComment r))
  | .blockComment => blockCommentPiece r
  | .hashBracket => .error (.unsupportedSyntax .attributes)
  | .dollar => variablePiece r
  | .singleQuote => singleQuotedPiece r
  | .doubleQuote => doubleQuotedPiece r
  | .backtick => .error (.unsupportedSyntax .backtickOperator)
  | .heredoc => Piece.ofRead .str (Heredoc.read (r.drop 2))
  | .number => Piece.ofRead id (number c r)
  | .name => .ok (namePiece c r)
  | .punct => punctPiece c r

/-- The next piece. -/
def piece (mode : Mode) (c : Char) (r : List Char) : Except Fault Piece :=
  match mode with
  | .html => .ok (htmlPiece c r)
  | .script => scriptPiece c r

/-! ### Pieces are parts of the text -/

/-- What is left behind text outside of the script is the end of the text. -/
theorem afterHtml_suffix (cs : List Char) : afterHtml cs <:+ cs := by
  induction cs with
  | nil => exact List.suffix_refl _
  | cons c r ih =>
    rw [afterHtml]
    split
    · exact List.suffix_refl _
    · exact ih.trans (List.suffix_cons c r)

/-- What is left behind the gap of a tag is the end of the text. -/
theorem afterTagGap_suffix (cs : List Char) : afterTagGap cs <:+ cs := by
  unfold afterTagGap
  split
  · exact (List.suffix_cons _ _).trans (List.suffix_cons _ _)
  · split
    · exact List.suffix_cons _ _
    · exact List.suffix_refl _
  · exact List.suffix_refl _

theorem afterTagBreak_suffix (cs : List Char) : afterTagBreak cs <:+ cs := by
  unfold afterTagBreak
  split
  · exact List.suffix_cons _ _
  · exact (List.suffix_cons _ _).trans (List.suffix_cons _ _)
  · exact List.suffix_refl _

/-- A piece of a text: what follows its text is a proper part of the text, and what follows its gap
is a part of that. -/
def Piece.Cuts (pc : Piece) (r : List Char) : Prop := pc.afterText <:+ r ∧ pc.rest <:+ pc.afterText

theorem Piece.cuts_token {kind : TokenKind} {rest r : List Char} (h : rest <:+ r) :
    (Piece.token kind rest).Cuts r := ⟨h, List.suffix_refl _⟩

theorem Piece.cuts_gap {rest r : List Char} (h : rest <:+ r) : (Piece.gap rest).Cuts r :=
  ⟨h, List.suffix_refl _⟩

theorem htmlPiece_cuts (c : Char) (r : List Char) : (htmlPiece c r).Cuts r := by
  unfold htmlPiece
  split
  · exact ⟨afterHtml_suffix r, List.suffix_refl _⟩
  · exact ⟨List.drop_suffix _ _, List.suffix_refl _⟩
  · exact ⟨List.drop_suffix _ _, afterTagGap_suffix _⟩

/-- Punctuation is a piece of the text, and something of it is taken. -/
theorem punctPiece_cuts {c : Char} {r : List Char} {pc : Piece}
    (h : punctPiece c r = .ok pc) : pc.Cuts r := by
  unfold punctPiece at h
  split at h
  · rename_i p rest hp
    injection h with h
    subst h
    obtain ⟨q, _, heq⟩ := Option.map_eq_some_iff.1 hp
    injection heq with hq hrest
    subst hq hrest
    refine Piece.cuts_token ?_
    obtain ⟨d, ds, hd⟩ := List.exists_cons_of_ne_nil (Punct.text_ne_empty q)
    rw [hd]
    show r.drop ds.length <:+ r
    exact List.drop_suffix _ _
  · cases h

/-- A piece that is read by a function is cut from the text if that function leaves its end. -/
theorem Piece.cuts_ofRead {α : Type} {x : Except Fault (α × List Char)} {kind : α → TokenKind}
    {r : List Char} {pc : Piece} (h : Piece.ofRead kind x = .ok pc)
    (suffix : ∀ a rest, x = .ok (a, rest) → rest <:+ r) : pc.Cuts r := by
  unfold ofRead at h
  split at h
  · rename_i a rest
    injection h with h
    exact h ▸ Piece.cuts_token (suffix a rest rfl)
  · cases h

/-- A piece of the script is cut from the text: what is left is its end, so the next piece begins in a
shorter one. One case for each kind of character that a piece begins with. -/
theorem scriptPiece_cuts {c : Char} {r : List Char} {pc : Piece}
    (h : scriptPiece c r = .ok pc) : pc.Cuts r := by
  unfold scriptPiece at h
  cases hs : Start.of c r with
  | blank =>
    rw [hs] at h
    injection h with h
    exact h ▸ Piece.cuts_gap (List.suffix_refl _)
  | closeTag =>
    rw [hs] at h
    injection h with h
    exact h ▸ ⟨List.drop_suffix _ _, afterTagBreak_suffix _⟩
  | lineComment =>
    rw [hs] at h
    injection h with h
    exact h ▸ Piece.cuts_gap (afterLineComment_suffix _)
  | blockComment =>
    rw [hs] at h
    dsimp only [blockCommentPiece] at h
    split at h
    · rename_i hb
      injection h with h
      exact h ▸ Piece.cuts_gap ((afterBlockComment?_suffix hb).trans (List.drop_suffix _ _))
    · cases h
  | hashBracket => rw [hs] at h; cases h
  | dollar =>
    rw [hs] at h
    dsimp only [variablePiece] at h
    split at h
    · injection h with h
      exact h ▸ Piece.cuts_token (name_suffix _)
    · cases h
  | singleQuote =>
    rw [hs] at h
    dsimp only [singleQuotedPiece] at h
    split at h
    · rename_i hq
      injection h with h
      exact h ▸ Piece.cuts_token (Quoted.read?_suffix hq)
    · cases h
  | doubleQuote =>
    rw [hs] at h
    exact Piece.cuts_ofRead h fun _ _ hi => interpolated_suffix hi
  | backtick => rw [hs] at h; cases h
  | heredoc =>
    rw [hs] at h
    exact Piece.cuts_ofRead h fun _ _ hi =>
      (Heredoc.read_suffix hi).trans (List.drop_suffix _ _)
  | number =>
    rw [hs] at h
    exact Piece.cuts_ofRead h fun _ _ hi => number_suffix hi
  | name =>
    rw [hs] at h
    injection h with h
    exact h ▸ Piece.cuts_token (qualified_suffix r)
  | punct =>
    rw [hs] at h
    exact punctPiece_cuts h

/-- A piece is cut from the text, inside of the script or outside. -/
theorem piece_cuts {mode : Mode} {c : Char} {r : List Char} {pc : Piece}
    (h : piece mode c r = .ok pc) : pc.Cuts r := by
  cases mode with
  | html =>
    injection h with h
    exact h ▸ htmlPiece_cuts c r
  | script => exact scriptPiece_cuts h

/-! ### All tokens -/

/-- The tokens of a piece whose text stands at `p`. -/
def Piece.tokens (pc : Piece) (p : Place) (text : List Char) : List Token :=
  pc.kinds.map fun kind => ⟨kind, Span.ofPlace p (p.past text).offset, text⟩

/-- The tokens of a text that begins at `p`, or the first fault. -/
def tokensFrom (mode : Mode) (p : Place) (cs : List Char) : Except ScriptError (List Token) :=
  match cs with
  | [] => .ok []
  | c :: r =>
    match h : piece mode c r with
    | .error fault => .error (.atPlace p fault)
    | .ok pc =>
      have shorter : pc.rest.length < (c :: r).length := by
        have cuts := piece_cuts h
        exact Nat.lt_succ_of_le (cuts.2.trans cuts.1).length_le
      let text := consumed (c :: r) pc.afterText
      -- The gap behind the text moves the place, but belongs to no token.
      let next := (p.past text).past (consumed pc.afterText pc.rest)
      match tokensFrom pc.mode next pc.rest with
      | .error e => .error e
      | .ok ts => .ok (pc.tokens p text ++ ts)
termination_by cs.length
decreasing_by exact shorter

/-- The tokens of a source text. -/
def tokenize (source : List Char) : Except ScriptError (List Token) :=
  tokensFrom .html .start source

end ConfigScript.Script
