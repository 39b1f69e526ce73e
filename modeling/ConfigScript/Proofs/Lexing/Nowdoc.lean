import ConfigScript.Proofs.Lexing.Closed
import ConfigScript.Proofs.Lexing.Word
import ConfigScript.Proofs.Text.Pieces

/-!
# Nowdocs

A heredoc with its label in single quotes holds its text as it is, so every text can be written as one,
with any indentation: it is read as one token with just that text (`tokensFrom_nowdoc`). What has to be
seen to is that no line of the text is taken for the closing one, and that the text does not end with a
carriage return, which would go with the line break in front of the closing line.

Three readers of lines have to agree for that: the search for the closing line goes through all lines of
the text (`Heredoc.body?_lines`), the last line break is cut off and no more (`Heredoc.chompLine_append`),
and then every line loses the indentation that was put in front of it (`Heredoc.dedent_indented`).
-/

namespace ConfigScript.Script

namespace Heredoc

variable {label indent body rest : List Char}

/-- A text with the same indentation in front of every line. -/
def indented (indent body : List Char) : List Char :=
  Text.join ['\n'] ((Text.splitOn '\n' body).map (indent ++ ·))

/-- A text as a nowdoc, indented like the closing label. -/
def nowdoc (label indent body : List Char) : List Char :=
  ['<', '<', '<', '\''] ++ label ++ ['\'', '\n'] ++ indented indent body ++ ['\n'] ++ indent ++ label

/-! ### Finding the closing line -/

/-- A line does not close a heredoc if it begins with a longer word than the label, or another one. -/
theorem closes_eq_false_iff {line : List Char} : closes label line = false ↔
    ∀ after, line.dropWhile isIndent = label ++ after → after.head?.any isNameChar := by
  constructor
  · intro open' after text
    have begins : label.isPrefixOf (label ++ after) :=
      List.isPrefixOf_iff_prefix.2 (List.prefix_append _ _)
    simpa [closes, text, begins] using open'
  · intro goesOn
    cases begins : label.isPrefixOf (line.dropWhile isIndent) with
    | false => simp [closes, begins]
    | true =>
      obtain ⟨after, text⟩ := List.isPrefixOf_iff_prefix.1 begins
      simp [closes, ← text, goesOn after text.symm]

/-- Indentation in front of a line does not matter. -/
theorem closes_indented (blank : ∀ c ∈ indent, isIndent c) (line : List Char) :
    closes label (indent ++ line) = closes label line := by
  rw [closes, closes, List.dropWhile_append_of_pos blank]

/-- Whether a text begins with the label as a whole word is told within its line. -/
theorem begins_line (word : ∀ c ∈ label, isNameChar c) (line rest : List Char) :
    (label.isPrefixOf (line ++ '\n' :: rest) &&
        !((line ++ '\n' :: rest).drop label.length).head?.any isNameChar) =
      (label.isPrefixOf line && !(line.drop label.length).head?.any isNameChar) := by
  induction label generalizing line with
  | nil => cases line <;> simp [isNameChar, isNameStart]
  | cons c label ih =>
    have more := ih fun d hd ↦ word d (List.mem_cons_of_mem c hd)
    cases line with
    | nil =>
      have ne : (c == '\n') = false := by
        refine beq_eq_false_iff_ne.2 ?_
        rintro rfl
        exact absurd (word _ List.mem_cons_self) (by decide)
      simp [List.isPrefixOf, ne]
    | cons d line =>
      simp only [List.cons_append, List.isPrefixOf, List.length_cons, List.drop_succ_cons,
        Bool.and_assoc, more line]

/-- What follows the line does not matter either. -/
theorem closes_line (word : ∀ c ∈ label, isNameChar c) (line rest : List Char) :
    closes label (line ++ '\n' :: rest) = closes label line := by
  have indentation : (line ++ '\n' :: rest).dropWhile isIndent =
      line.dropWhile isIndent ++ '\n' :: rest := by
    rw [List.dropWhile_append]
    split
    · rename_i none
      rw [List.isEmpty_iff.1 none]
      rfl
    · rfl
  rw [closes, closes, indentation]
  exact begins_line word _ rest

/-- The search goes on behind a line that does not close. Inside the line nothing is asked. -/
theorem body?_line {line : List Char} (plain : '\n' ∉ line) {b : Bool} (rest : List Char)
    (goesOn : (b && closes label (line ++ '\n' :: rest)) = false) :
    body? label b (line ++ '\n' :: rest) =
      (body? label true rest).map fun (lines, closing) ↦ (line ++ '\n' :: lines, closing) := by
  induction line generalizing b with
  | nil =>
    rw [List.nil_append] at goesOn ⊢
    rw [body?, goesOn]
    rfl
  | cons c line ih =>
    rw [List.mem_cons, not_or] at plain
    have inside : (c == '\n') = false := beq_eq_false_iff_ne.2 (Ne.symm plain.1)
    rw [List.cons_append] at goesOn ⊢
    rw [body?, goesOn, inside, if_neg Bool.false_ne_true, ih plain.2 rfl, Option.map_map]
    rfl

/-- The search goes through all lines that do not close, up to one that does. -/
theorem body?_lines (word : ∀ c ∈ label, isNameChar c) {lines : List (List Char)}
    (plain : ∀ line ∈ lines, '\n' ∉ line) (goesOn : ∀ line ∈ lines, closes label line = false)
    {closing : List Char} (some' : closing ≠ []) (closed : closes label closing) :
    body? label true (lines.flatMap (· ++ ['\n']) ++ closing) =
      some (lines.flatMap (· ++ ['\n']), closing) := by
  induction lines with
  | nil =>
    obtain ⟨c, r, rfl⟩ := List.exists_cons_of_ne_nil some'
    rw [List.flatMap_nil, List.nil_append, body?, closed]
    rfl
  | cons line lines ih =>
    have more := ih (fun l hl ↦ plain l (List.mem_cons_of_mem line hl))
      fun l hl ↦ goesOn l (List.mem_cons_of_mem line hl)
    have here : (true && closes label
        (line ++ '\n' :: (lines.flatMap (· ++ ['\n']) ++ closing))) = false := by
      rw [Bool.true_and, closes_line word, goesOn line List.mem_cons_self]
    have text : (line :: lines).flatMap (· ++ ['\n']) ++ closing =
        line ++ '\n' :: (lines.flatMap (· ++ ['\n']) ++ closing) := by simp
    rw [text, body?_line (plain line List.mem_cons_self) _ here, more]
    simp

/-- The label in front of what does not go on with it closes the heredoc. -/
theorem closes_label (nonempty : label ≠ []) (word : ∀ c ∈ label, isNameChar c)
    (ends : rest.head?.any isNameChar = false) : closes label (label ++ rest) := by
  obtain ⟨c, ls, rfl⟩ := List.exists_cons_of_ne_nil nonempty
  have first : isIndent c = false := isIndent_of_isNameChar (word c List.mem_cons_self)
  have text : (c :: ls ++ rest).dropWhile isIndent = c :: ls ++ rest := by
    rw [List.cons_append, List.dropWhile_cons_of_neg (by simp [first])]
  simp only [closes, text, List.drop_left, ends, Bool.not_false, Bool.and_true]
  exact List.isPrefixOf_iff_prefix.2 (List.prefix_append _ _)

/-! ### Reading the lines -/

/-- Only the last line break is cut off, if there is no carriage return in front of it. -/
theorem chompLine_append {cs : List Char} (h : cs.getLast? ≠ some '\r') :
    chompLine (cs ++ ['\n']) = cs := by
  rcases List.eq_nil_or_concat cs with rfl | ⟨front, last, rfl⟩
  · rfl
  · have ne : last ≠ '\r' := by simpa using h
    simp only [chompLine, List.concat_eq_append, List.reverse_append, List.reverse_cons,
      List.reverse_nil, List.nil_append, List.cons_append]
    split
    · rename_i eq
      exact absurd (List.cons.inj (List.cons.inj eq).2).1 ne
    · rename_i eq
      rw [← (List.cons.inj eq).2]
      simp
    · rename_i other
      exact absurd rfl (other _)

/-- Indentation is removed from a line that has it. -/
theorem dedentLine_append (blank : ∀ c ∈ indent, isIndent c) (line : List Char) :
    dedentLine indent.length (indent ++ line) = line := by
  have all : indent.takeWhile isIndent = indent := List.takeWhile_eq_self_iff.2 blank
  rw [dedentLine, List.take_left, all, List.drop_left]

/-- The lines of an indented text are the indented lines. -/
theorem splitOn_indented (blank : ∀ c ∈ indent, isIndent c) (body : List Char) :
    Text.splitOn '\n' (indented indent body) = (Text.splitOn '\n' body).map (indent ++ ·) := by
  refine Text.splitOn_join (fun line hl ↦ ?_) (by simp [Text.splitOn_ne_nil])
  obtain ⟨piece, hp, rfl⟩ := List.mem_map.1 hl
  rw [List.mem_append, not_or]
  exact ⟨fun hm ↦ absurd (blank _ hm) (by decide), fun hm ↦ (Text.mem_of_mem_splitOn hp hm).2 rfl⟩

/-- What was indented is dedented again. -/
theorem dedent_indented (blank : ∀ c ∈ indent, isIndent c) (body : List Char) :
    dedent indent.length (indented indent body) = body := by
  have lines : ((Text.splitOn '\n' body).map (indent ++ ·)).map (dedentLine indent.length) =
      Text.splitOn '\n' body := by
    rw [List.map_map]
    exact List.map_id'' (fun line ↦ dedentLine_append blank line) _
  rw [dedent, splitOn_indented blank, lines, Text.join_splitOn]

/-- Indentation brings no carriage return to the end. -/
theorem getLast?_indented (blank : ∀ c ∈ indent, isIndent c) (h : body.getLast? ≠ some '\r') :
    (indented indent body).getLast? ≠ some '\r' := by
  obtain ⟨before, last, lines, -⟩ := Text.exists_splitOn_concat '\n' body
  have text : body = before.flatMap (· ++ ['\n']) ++ last := by
    rw [← Text.join_splitOn '\n' body, lines, Text.join_concat]
  have text' : indented indent body =
      (before.map (indent ++ ·)).flatMap (· ++ ['\n']) ++ (indent ++ last) := by
    rw [indented, lines, List.map_append, List.map_singleton, Text.join_concat]
  rw [text] at h
  rw [text']
  -- The last character is that of the last line, of its indentation or of the line in front of it.
  rcases List.eq_nil_or_concat last with rfl | ⟨front, c, rfl⟩
  · rcases List.eq_nil_or_concat indent with rfl | ⟨front, c, rfl⟩
    · rcases List.eq_nil_or_concat before with rfl | ⟨front, line, rfl⟩
      · simp
      · simp
    · have ne : c ≠ '\r' := by
        rintro rfl
        exact absurd (blank '\r' (by simp)) (by decide)
      simpa using ne
  · simpa using h

/-- The parts of a nowdoc. -/
def nowdocLayout (label indent body : List Char) : Layout where
  gap := []
  quote := some '\''
  label := label
  linebreak := ['\n']
  lines := indented indent body ++ ['\n']
  indent := indent

theorem text_nowdocLayout (label indent body rest : List Char) :
    nowdoc label indent body ++ rest =
      '<' :: '<' :: '<' :: (nowdocLayout label indent body).text rest := by
  simp [nowdoc, nowdocLayout, Layout.text]

/-- The lines of a nowdoc end where the closing line begins. -/
theorem legal_nowdocLayout (nonempty : label ≠ []) (word : ∀ c ∈ label, isNameChar c)
    (blank : ∀ c ∈ indent, isIndent c)
    (free : ∀ line ∈ Text.splitOn '\n' body, closes label line = false)
    (ends : rest.head?.any isNameChar = false) : (nowdocLayout label indent body).Legal rest := by
  refine ⟨nofun, fun q hq ↦ .inl (Option.some.inj hq).symm, nonempty, word, .inl rfl, blank, ?_⟩
  have lines : indented indent body ++ ['\n'] =
      ((Text.splitOn '\n' body).map (indent ++ ·)).flatMap (· ++ ['\n']) := by
    obtain ⟨before, last, eq⟩ := (List.eq_nil_or_concat
      ((Text.splitOn '\n' body).map (indent ++ ·))).resolve_left (by simp [Text.splitOn_ne_nil])
    rw [indented, eq, List.concat_eq_append, Text.join_concat]
    simp
  have closed : closes label (indent ++ (label ++ rest)) := by
    rw [closes_indented blank]
    exact closes_label nonempty word ends
  dsimp only [nowdocLayout]
  rw [lines]
  refine body?_lines word (fun line hl ↦ ?_) (fun line hl ↦ ?_) (by simp [nonempty]) closed
  · rw [← splitOn_indented blank] at hl
    exact fun hm ↦ (Text.mem_of_mem_splitOn hl hm).2 rfl
  · obtain ⟨piece, hp, rfl⟩ := List.mem_map.1 hl
    rw [closes_indented blank, free piece hp]

/-- What a nowdoc is read as. -/
theorem read_nowdocLayout (nonempty : label ≠ []) (word : ∀ c ∈ label, isNameChar c)
    (blank : ∀ c ∈ indent, isIndent c) (noReturn : body.getLast? ≠ some '\r')
    (free : ∀ line ∈ Text.splitOn '\n' body, closes label line = false)
    (ends : rest.head?.any isNameChar = false) :
    read ((nowdocLayout label indent body).text rest) =
      .ok ([.text (String.ofList body)], rest) := by
  rw [(legal_nowdocLayout nonempty word blank free ends).read]
  dsimp only [nowdocLayout]
  rw [chompLine_append (getLast?_indented blank noReturn), dedent_indented blank]
  rfl

end Heredoc

open Heredoc in
/-- A nowdoc fits where the label does not go on. -/
theorem fits_nowdoc {label indent body rest : List Char} (nonempty : label ≠ [])
    (word : ∀ c ∈ label, isNameChar c) (blank : ∀ c ∈ indent, isIndent c)
    (noReturn : body.getLast? ≠ some '\r')
    (free : ∀ line ∈ Text.splitOn '\n' body, closes label line = false)
    (ends : rest.head?.any isNameChar = false) :
    Fits (.str [.text (String.ofList body)]) (nowdoc label indent body) rest := by
  have text := text_nowdocLayout label indent body
  refine ⟨'<', '<' :: '<' :: (nowdocLayout label indent body).text [], ?_, ?_⟩
  · rw [← text, List.append_nil]
  · have behind : '<' :: '<' :: (nowdocLayout label indent body).text [] ++ rest =
        '<' :: '<' :: (nowdocLayout label indent body).text rest := by simp [Layout.text]
    rw [behind]
    show Piece.ofRead .str (Heredoc.read ((nowdocLayout label indent body).text rest)) = _
    rw [read_nowdocLayout nonempty word blank noReturn free ends]
    rfl

/-- Every text can be written as a nowdoc with a label and indentation, if no line of it closes the
nowdoc and it does not end with a carriage return. It is one token with exactly that text, which ends
with the label, and the lexer goes on behind it. -/
theorem tokensFrom_nowdoc (front : List Char) {label indent body rest : List Char}
    (nonempty : label ≠ []) (word : ∀ c ∈ label, isNameChar c)
    (blank : ∀ c ∈ indent, isIndent c) (noReturn : body.getLast? ≠ some '\r')
    (free : ∀ line ∈ Text.splitOn '\n' body, ∀ after, line.dropWhile isIndent = label ++ after →
      after.head?.any isNameChar)
    (ends : rest.head?.any isNameChar = false) :
    ∃ s : Span, s.start = Text.byteLength front ∧
      s.stop = Text.byteLength front + Text.byteLength (Heredoc.nowdoc label indent body) ∧
      s.text (front ++ Heredoc.nowdoc label indent body ++ rest) =
        Heredoc.nowdoc label indent body ∧
      tokensFrom .script (Place.start.past front) (Heredoc.nowdoc label indent body ++ rest) =
        (tokensFrom .script (Place.start.past (front ++ Heredoc.nowdoc label indent body)) rest).map
          (⟨.str [.text (String.ofList body)], s, Heredoc.nowdoc label indent body⟩ :: ·) := by
  have open' : ∀ line ∈ Text.splitOn '\n' body, Heredoc.closes label line = false :=
    fun line hl ↦ Heredoc.closes_eq_false_iff.2 (free line hl)
  exact (fits_nowdoc nonempty word blank noReturn open' ends).tokensFrom front

/-- Lines that begin with the label as a part of a word, one of them behind a blank, an empty line, a
carriage return inside and a quote, all behind a tab. -/
theorem tokensFrom_nowdoc_words : ∃ body source s,
    body = " EOTX\n\nit's\r\n$EOT\nEOT_" ∧
      source = "<<<'EOT'\n\t EOTX\n\t\n\tit's\r\n\t$EOT\n\tEOT_\n\tEOT".toList ∧
      s.start = 5 ∧ s.stop = 46 ∧
      tokensFrom .script (Place.start.past "$a = ".toList) (source ++ [';']) =
        (tokensFrom .script (Place.start.past ("$a = ".toList ++ source)) [';']).map
          (⟨.str [.text body], s, source⟩ :: ·) := by
  have text : Heredoc.nowdoc "EOT".toList ['\t'] " EOTX\n\nit's\r\n$EOT\nEOT_".toList =
      "<<<'EOT'\n\t EOTX\n\t\n\tit's\r\n\t$EOT\n\tEOT_\n\tEOT".toList := by decide +kernel
  have word : ∀ c ∈ "EOT".toList, isNameChar c := List.all_eq_true.1 (by decide)
  have blank : ∀ c ∈ ['\t'], isIndent c := List.all_eq_true.1 (by decide)
  have noReturn : " EOTX\n\nit's\r\n$EOT\nEOT_".toList.getLast? ≠ some '\r' := by decide +kernel
  have open' : ∀ line ∈ Text.splitOn '\n' " EOTX\n\nit's\r\n$EOT\nEOT_".toList,
      Heredoc.closes "EOT".toList line = false := by decide +kernel
  have ends : [';'].head?.any isNameChar = false := by decide
  obtain ⟨s, start, stop, -, tokens⟩ := tokensFrom_nowdoc "$a = ".toList (by decide) word blank
    noReturn (fun line hl ↦ Heredoc.closes_eq_false_iff.1 (open' line hl)) ends
  rw [text] at stop tokens
  exact ⟨_, _, s, rfl, rfl, start, stop.trans (by decide +kernel), tokens⟩

end ConfigScript.Script
