import ConfigScript.Script.Lexer.Interpolated
import ConfigScript.Text.Search

/-!
# Heredocs

A heredoc holds whole lines. It opens with `<<<` and a label, and ends with a line that begins with
the label, which may be indented; that indentation is removed from every line of the body. A label
in single quotes turns escapes and variables off.
-/

namespace ConfigScript.Script.Heredoc

/-- Whether a line, given with all that follows it, begins with the label as a whole word. -/
def closes (label line : List Char) : Bool :=
  let after := line.dropWhile isIndent
  label.isPrefixOf after && !(after.drop label.length).head?.any isNameChar

/-- The lines in front of the closing line, with their line feeds, and what begins with the closing
line. The flag says whether a line begins here. -/
def body? (label : List Char) (atLineStart : Bool) : List Char → Option (List Char × List Char)
  | [] => none
  | c :: r =>
    if atLineStart && closes label (c :: r) then some ([], c :: r)
    else (body? label (c == '\n') r).map fun (lines, rest) => (c :: lines, rest)

/-- A text without the line break at its end. -/
def chompLine (cs : List Char) : List Char :=
  match cs.reverse with
  | '\n' :: '\r' :: r => r.reverse
  | '\n' :: r => r.reverse
  | _ => cs

/-- Remove up to `width` characters of indentation. -/
def dedentLine (width : Nat) (line : List Char) : List Char :=
  line.drop ((line.take width).takeWhile isIndent).length

/-- Remove up to `width` characters of indentation from every line. -/
def dedent (width : Nat) (cs : List Char) : List Char :=
  Text.join ['\n'] ((Text.splitOn '\n' cs).map (dedentLine width))

/-- The quote around the label, if there is one, and what follows it. -/
def openQuote (cs : List Char) : Option Char × List Char :=
  match cs with
  | '\'' :: r => (some '\'', r)
  | '"' :: r => (some '"', r)
  | r => (none, r)

/-- What follows the quote that closes the label. -/
def closeQuote (quote : Option Char) (cs : List Char) : Except Fault (List Char) :=
  match quote, cs with
  | none, r => .ok r
  | some q, c :: r => if c == q then .ok r else .error .unterminatedString
  | some _, [] => .error .unterminatedString

/-- What follows a line break. -/
def afterBreak (cs : List Char) : Except Fault (List Char) :=
  match cs with
  | '\n' :: r => .ok r
  | '\r' :: '\n' :: r => .ok r
  | _ => .error .unterminatedString

/-- The pieces of a body. -/
def bodyParts (quote : Option Char) (text : List Char) : Except Fault (List Part) :=
  if quote = some '\'' then .ok [.text (String.ofList text)]
  else (interpolated none text).map fun (fs, _) => Fragment.parts fs

/-- A heredoc, given what follows `<<<`: its pieces and what follows the closing label. -/
def read (cs : List Char) : Except Fault (List Part × List Char) :=
  let (quote, r) := openQuote (cs.dropWhile isIndent)
  let (label, r) := name r
  if label.isEmpty then .error (.unexpectedCharacter '<')
  else do
    let r ← closeQuote quote r
    let r ← afterBreak r
    match body? label true r with
    | none => .error .unterminatedString
    | some (lines, closing) =>
      let width := (closing.takeWhile isIndent).length
      let parts ← bodyParts quote (dedent width (chompLine lines))
      .ok (parts, closing.drop (width + label.length))

/-- What is left behind the lines of a heredoc is the end of the text, so its label is looked for in
fewer lines. -/
theorem body?_suffix {label cs lines rest : List Char} {b : Bool}
    (h : body? label b cs = some (lines, rest)) : rest <:+ cs := by
  induction cs generalizing b lines rest with
  | nil => cases h
  | cons c r ih =>
    rw [body?] at h
    split at h
    · injection h with h
      injection h with _ h
      exact h ▸ List.suffix_refl _
    · obtain ⟨⟨l, rest'⟩, hr, heq⟩ := Option.map_eq_some_iff.1 h
      injection heq with _ heq
      subst heq
      exact (ih hr).trans (List.suffix_cons c r)

theorem openQuote_suffix (cs : List Char) : (openQuote cs).2 <:+ cs := by
  unfold openQuote
  split
  · exact List.suffix_cons _ _
  · exact List.suffix_cons _ _
  · exact List.suffix_refl _

/-- What is left behind the quote of a label is the end of the text. -/
theorem closeQuote_suffix {quote : Option Char} {cs rest : List Char}
    (h : closeQuote quote cs = .ok rest) : rest <:+ cs := by
  unfold closeQuote at h
  split at h
  · injection h with h
    exact h ▸ List.suffix_refl _
  · split at h
    · injection h with h
      exact h ▸ List.suffix_cons _ _
    · cases h
  · cases h

/-- What is left behind a line break is the end of the text. -/
theorem afterBreak_suffix {cs rest : List Char} (h : afterBreak cs = .ok rest) : rest <:+ cs := by
  unfold afterBreak at h
  split at h
  · injection h with h
    exact h ▸ List.suffix_cons _ _
  · injection h with h
    exact h ▸ (List.suffix_cons _ _).trans (List.suffix_cons _ _)
  · cases h

/-- What is left behind a heredoc is the end of the text, whether it has variables inside or not. -/
theorem read_suffix {cs rest : List Char} {parts : List Part} (h : read cs = .ok (parts, rest)) :
    rest <:+ cs := by
  unfold read at h
  dsimp only at h
  split at h
  · cases h
  · cases hq : closeQuote (openQuote (cs.dropWhile isIndent)).1
        (name (openQuote (cs.dropWhile isIndent)).2).2 with
    | error e => rw [hq] at h; cases h
    | ok r1 =>
      rw [hq] at h
      dsimp only [bind, Except.bind] at h
      cases hb : afterBreak r1 with
      | error e => rw [hb] at h; cases h
      | ok r2 =>
        rw [hb] at h
        dsimp only at h
        split at h
        · cases h
        · rename_i lines closing hbody
          split at h
          · cases h
          · injection h with h
            injection h with _ h
            subst h
            exact (List.drop_suffix _ _).trans <| (body?_suffix hbody).trans <|
              (afterBreak_suffix hb).trans <| (closeQuote_suffix hq).trans <|
              (name_suffix _).trans <| (openQuote_suffix _).trans <| List.dropWhile_suffix _

end ConfigScript.Script.Heredoc
