import ConfigScript.Proofs.Lexing.Row

/-!
# The last token of an operand

Whatever stands behind an operand, a semicolon may stand there instead: the token that the operand ends
with is cut off in front of it as well (`Fits.semicolon`), and so is all that stands in front of that token
(`Lexes.semicolon`).
-/

namespace ConfigScript.Script

variable {c : Char} {u v : List Char}

/-! ### Names and numbers -/

/-- A run of characters that ends here ends in front of a semicolon as well, unless that belongs to it. -/
theorem dropWhile_semicolon {p : Char → Bool} (h : (u ++ v).dropWhile p = v) (stops : p ';' = false)
    (w : List Char) : (u ++ ';' :: w).takeWhile p = (u ++ v).takeWhile p ∧
      (u ++ ';' :: w).dropWhile p = ';' :: w :=
  dropWhile_append_same h (by rw [any_head_of_dropWhile h]; exact stops)

/-- A name ends in front of a semicolon as well. -/
theorem name_semicolon {n : List Char} (h : name (u ++ v) = (n, v)) (w : List Char) :
    name (u ++ ';' :: w) = (n, ';' :: w) := by
  injection h with text rest
  have same := dropWhile_semicolon rest rfl w
  rw [name, same.1, same.2, text]

/-- A name that ends here goes on neither with a semicolon; and but for its last character nothing tells
the texts apart. -/
theorem qualified_semicolon {n : List Char} (h : qualified (u ++ v) = (n, v)) (w : List Char) :
    qualified (u ++ ';' :: w) = (n, ';' :: w) ∧ (u ≠ [] → Alike True (u ++ v) (u ++ ';' :: w)) := by
  induction u generalizing n with
  | nil =>
    have whole := qualified_append v
    rw [List.nil_append] at h
    rw [h, List.append_left_eq_self] at whole
    exact ⟨congrArg (·, ';' :: w) whole.symm, absurd rfl⟩
  | cons c u ih =>
    rw [List.cons_append] at h
    cases hc : goesOn c (u ++ v) with
    | false =>
      rw [qualified_of_stops hc] at h
      have long := congrArg (fun p : List Char × List Char ↦ p.2.length) h
      simp only [List.length_cons, List.length_append] at long
      omega
    | true =>
      rw [qualified_of_goesOn hc] at h
      injection h with text rest
      obtain ⟨inner, alike⟩ := ih (n := (qualified (u ++ v)).1) (Prod.ext rfl rest)
      cases u with
      | nil =>
        -- A backslash would go on with the name that follows.
        have char : isNameChar c = true := by
          rcases Bool.or_eq_true_iff.1 hc with char | mark
          · exact char
          · rw [List.nil_append, Bool.and_eq_true] at mark
            rw [List.nil_append] at rest
            cases v with
            | nil => cases mark.2
            | cons d v =>
              have start : isNameStart d = true := mark.2
              have goes : goesOn d v = true := by rw [goesOn, isNameChar_of_isNameStart start]; rfl
              rw [qualified_of_goesOn goes] at rest
              have long := congrArg List.length (qualified_append v)
              rw [List.length_append, show (qualified v).2 = d :: v from rest, List.length_cons] at long
              omega
        refine ⟨?_, fun _ ↦ .solid trivial (by rw [isSolid, char]; rfl) fun _ ↦ rfl⟩
        rw [List.cons_append, qualified_of_goesOn (by rw [goesOn, char]; rfl), inner, ← text]
      | cons d u =>
        have goes : goesOn c (d :: u ++ ';' :: w) = true := hc
        refine ⟨?_, fun _ ↦ .cons c (alike (List.cons_ne_nil _ _))⟩
        rw [List.cons_append, qualified_of_goesOn goes, inner, ← text]

/-- A number ends in front of a semicolon as well. -/
theorem number_semicolon {k : TokenKind} (h : number c (u ++ v) = .ok (k, v)) (w : List Char) :
    number c (u ++ ';' :: w) = .ok (k, ';' :: w) :=
  number_congr h (fun _ ↦ Bool.and_false _)
    (fun _ decimal ↦ afterDecimal_congr decimal (fun _ _ ↦ afterDecimal_of_isQuiet rfl _ w) fun _ ↦ rfl)
    fun _ known _ ↦ isRadixChar_of_isQuiet known _ rfl

/-! ### Heredocs -/

/-- A heredoc has several lines, and its label is a whole word. -/
theorem Heredoc.exists_lines {cs rest : List Char} {parts : List Part}
    (h : Heredoc.read cs = .ok (parts, rest)) :
    rest.head?.any isNameChar = false ∧ ∃ a b, cs = a ++ '\n' :: (b ++ rest) := by
  obtain ⟨l, legal, rfl, -⟩ := Layout.exists_layout h
  refine ⟨?_, ?_⟩
  · obtain ⟨-, closed⟩ := exists_body legal.body
    obtain ⟨c, cs, label⟩ := List.exists_cons_of_ne_nil legal.nonempty
    have first : isIndent c = false :=
      isIndent_of_isNameChar (legal.word c (by rw [label]; exact List.mem_cons_self))
    have after : (l.indent ++ (l.label ++ rest)).dropWhile isIndent = l.label ++ rest := by
      rw [List.dropWhile_append_of_pos legal.indent, label, List.cons_append,
        List.dropWhile_cons_of_neg (by rw [first]; exact Bool.false_ne_true)]
    rw [closes, after, List.drop_left, Bool.and_eq_true, Bool.not_eq_true'] at closed
    exact closed.2
  · rcases legal.linebreak with feed | feed
    · exact ⟨l.gap ++ (l.quote.toList ++ (l.label ++ l.quote.toList)),
        l.lines ++ (l.indent ++ l.label), by simp [Layout.text, feed]⟩
    · exact ⟨l.gap ++ (l.quote.toList ++ (l.label ++ (l.quote.toList ++ ['\r']))),
        l.lines ++ (l.indent ++ l.label), by simp [Layout.text, feed]⟩

/-! ### Tokens -/

/-- What a token begins with, by the character of its piece. -/
theorem start_token {r : List Char} :
    (Start.of c r = .dollar → c = '$') ∧ (Start.of c r = .singleQuote → c = '\'') ∧
      (Start.of c r = .doubleQuote → c = '"') ∧
      (Start.of c r = .heredoc → c = '<' ∧ ['<', '<'].isPrefixOf r) ∧
      (Start.of c r = .number → c.isDigit ∨ c = '.' ∧ r.head?.any Char.isDigit) ∧
      (Start.of c r = .name → isNameStart c ∨ c = '\\' ∧ startsName r) := by
  unfold Start.of
  by_cases blank : isGap c
  · rw [if_pos blank]
    exact ⟨nofun, nofun, nofun, nofun, nofun, nofun⟩
  by_cases tag : c == '?' && r.head? == some '>'
  · rw [if_neg blank, if_pos tag]
    exact ⟨nofun, nofun, nofun, nofun, nofun, nofun⟩
  by_cases line : (c == '#' && r.head? != some '[') || (c == '/' && r.head? == some '/')
  · rw [if_neg blank, if_neg tag, if_pos line]
    exact ⟨nofun, nofun, nofun, nofun, nofun, nofun⟩
  by_cases block : c == '/' && r.head? == some '*'
  · rw [if_neg blank, if_neg tag, if_neg line, if_pos block]
    exact ⟨nofun, nofun, nofun, nofun, nofun, nofun⟩
  rw [if_neg blank, if_neg tag, if_neg line, if_neg block]
  refine ⟨?_, ?_, ?_, ?_, ?_, ?_⟩ <;> intro h <;> grind

/-- A digit begins a number. -/
theorem Start.of_digit (h : c.isDigit) (r : List Char) : Start.of c r = .number := by
  have ne : ∀ d : Char, d.isDigit = false → (c == d) = false := by
    intro d hd
    refine beq_eq_false_iff_ne.2 ?_
    rintro rfl
    rw [h] at hd
    cases hd
  have gap : isGap c = false := by
    simp only [isGap, ne ' ' (by decide), ne '\t' (by decide), ne '\r' (by decide),
      ne '\n' (by decide), ne '\x0b' (by decide), ne '\x0c' (by decide), Bool.or_self]
  unfold Start.of
  simp [gap, h, ne '?' (by decide), ne '#' (by decide), ne '/' (by decide), ne '$' (by decide),
    ne '\'' (by decide), ne '"' (by decide), ne '\x60' (by decide), ne '<' (by decide)]

theorem isSolid_of_isDigit (h : c.isDigit) (w : List Char) :
    isSolid c ∧ ((c == 'e' || c == 'E') = true → startsExponent w = false) := by
  refine ⟨by simp [isSolid, isNameChar, h], fun mark ↦ ?_⟩
  simp only [Bool.or_eq_true, beq_iff_eq] at mark
  rcases mark with rfl | rfl <;> cases h

theorem token_injective {k k' : TokenKind} {r r' : List Char} (h : Piece.token k r = .token k' r') :
    k = k' ∧ r = r' := by
  cases h
  exact ⟨rfl, rfl⟩

/-- A token that begins with `c` ends in front of a semicolon as it does in front of `z`, and but for its
last characters nothing tells the texts apart. -/
structure Closes (k : TokenKind) (c : Char) (r z w : List Char) : Prop where
  piece : scriptPiece c (r ++ ';' :: w) = .ok (.token k (';' :: w))
  alike : Alike True (c :: (r ++ z)) (c :: (r ++ ';' :: w))

namespace Closes

variable {k : TokenKind} {r z : List Char}

/-- The first character of many tokens belongs to no name or number. -/
theorem alike_of_isSolid {s s' : List Char} (solid : isSolid c) (ne : c ≠ 'e' ∧ c ≠ 'E') :
    Alike True (c :: s) (c :: s') :=
  .solid trivial solid fun mark ↦ by simp [ne] at mark

/-- A variable ends in front of a semicolon as in front of anything else. -/
theorem of_variable (h : variablePiece (r ++ z) = .ok (.token k z)) (w : List Char) :
    Closes k '$' r z w := by
  rw [variablePiece] at h
  split at h
  · rename_i starts
    obtain ⟨rfl, rest⟩ := token_injective (Except.ok.inj h)
    have read := name_semicolon (Prod.ext rfl rest) w
    have starts' : startsName (r ++ ';' :: w) = true := by
      cases r with
      | nil =>
        have stops := any_head_of_dropWhile rest
        cases z with
        | nil => cases starts
        | cons d z =>
          have char : isNameChar d = true := isNameChar_of_isNameStart starts
          exact absurd stops (by rw [List.head?_cons, Option.any_some, char]; decide)
      | cons d r => exact starts
    refine ⟨?_, alike_of_isSolid rfl (by decide)⟩
    show variablePiece (r ++ ';' :: w) = _
    rw [variablePiece, if_pos starts', read]
  · cases h

theorem of_singleQuoted (h : singleQuotedPiece (r ++ z) = .ok (.token k z)) (w : List Char) :
    Closes k '\'' r z w :=
  ⟨singleQuotedPiece_append h _, alike_of_isSolid rfl (by decide)⟩

theorem of_doubleQuoted (h : doubleQuotedPiece (r ++ z) = .ok (.token k z)) (w : List Char) :
    Closes k '"' r z w :=
  ⟨doubleQuotedPiece_append h _, alike_of_isSolid rfl (by decide)⟩

/-- A heredoc ends in front of a semicolon as in front of anything else, for its label goes on with
neither. -/
theorem of_heredoc (shift : ['<', '<'].isPrefixOf (r ++ z))
    (h : Piece.ofRead .str (Heredoc.read ((r ++ z).drop 2)) = .ok (.token k z)) (w : List Char) :
    Closes k '<' r z w := by
  obtain ⟨parts, rest, read, same⟩ := exists_ofRead h
  obtain ⟨-, rfl⟩ := token_injective same
  obtain ⟨stops, a, b, lines⟩ := Heredoc.exists_lines read
  have here := heredocPiece_append h (show Heredoc.SameWord z (';' :: w) from stops.symm)
  match r with
  | d :: e :: r =>
    simp only [List.cons_append, List.drop_succ_cons, List.drop_zero] at lines shift
    obtain ⟨rfl, rfl⟩ : '<' = d ∧ '<' = e := by simpa [List.isPrefixOf] using shift
    have text : r = a ++ '\n' :: b := by
      rw [← List.cons_append, ← List.append_assoc] at lines
      exact List.append_cancel_right lines
    have edge : Alike True ('\n' :: (b ++ z)) ('\n' :: (b ++ ';' :: w)) := .edge rfl _ _
    have whole := edge.append ('<' :: '<' :: '<' :: a)
    rw [text] at here ⊢
    exact ⟨here, by simpa using whole⟩
  | [] | [d] =>
    have short := congrArg List.length lines
    rw [List.length_drop, List.length_append, List.length_append] at short
    simp only [List.length_cons, List.length_append, List.length_nil] at short
    omega

/-- A number ends in front of a semicolon as in front of anything else. What follows is told apart only
if it might go on with the number. -/
theorem of_number (begins : c.isDigit ∨ c = '.' ∧ (r ++ z).head?.any Char.isDigit)
    (h : Piece.ofRead id (number c (r ++ z)) = .ok (.token k z)) (w : List Char) :
    Closes k c r z w := by
  obtain ⟨k, rest, read, same⟩ := exists_ofRead h
  obtain ⟨rfl, rfl⟩ := token_injective same.symm
  have read' := number_semicolon read w
  have piece : Start.of c (r ++ ';' :: w) = .number →
      scriptPiece c (r ++ ';' :: w) = .ok (.token k (';' :: w)) := by
    intro start
    rw [scriptPiece, start]
    dsimp only
    rw [read']
    rfl
  rcases begins with digit | ⟨rfl, digit⟩
  · obtain ⟨solid, power⟩ := isSolid_of_isDigit digit (r ++ ';' :: w)
    exact ⟨piece (Start.of_digit digit _), .solid trivial solid power⟩
  · cases r with
    | nil =>
      -- The digits behind the point would be read.
      cases rest with
      | nil => cases digit
      | cons d rest =>
        rw [List.nil_append, number_of_decimal rfl] at read
        have stops := afterDecimal_stops (Prod.ext rfl (Prod.mk.inj (Except.ok.inj read)).2)
        have digit' : d.isDigit = true := digit
        rw [digit'] at stops
        cases stops.2.1
    | cons d r =>
      have digit' : d.isDigit = true := digit
      obtain ⟨solid, power⟩ := isSolid_of_isDigit digit' (r ++ ';' :: w)
      exact ⟨piece (by simp [Start.of, isGap, digit']), .cons '.' (.solid trivial solid power)⟩

/-- A name ends in front of a semicolon as in front of anything else. -/
theorem of_name (begins : isNameStart c ∨ c = '\\' ∧ startsName (r ++ z))
    (h : namePiece c (r ++ z) = .token k z) (w : List Char) : Closes k c r z w := by
  obtain ⟨rfl, rest⟩ := token_injective h
  obtain ⟨read, alike⟩ := qualified_semicolon (Prod.ext rfl rest) w
  have piece : Start.of c (r ++ ';' :: w) = .name →
      scriptPiece c (r ++ ';' :: w) = .ok (.token (.ident (String.ofList
        (unrooted (c :: (qualified (r ++ z)).1)))) (';' :: w)) := by
    intro start
    rw [scriptPiece, start]
    dsimp only
    rw [namePiece, read]
  rcases begins with start | ⟨rfl, start⟩
  · refine ⟨piece (Start.of_nameStart start _), ?_⟩
    cases r with
    | nil =>
      have char := isNameChar_of_isNameStart start
      exact .solid trivial (by rw [isSolid, char]; rfl) fun _ ↦ rfl
    | cons d r => exact .cons c (alike (List.cons_ne_nil _ _))
  · cases r with
    | nil =>
      -- The name behind the backslash would be read.
      cases z with
      | nil => cases start
      | cons d z =>
        have goes : goesOn d z = true := by
          rw [goesOn, isNameChar_of_isNameStart start]
          rfl
        rw [List.nil_append, qualified_of_goesOn goes] at rest
        have long := congrArg List.length (qualified_append z)
        rw [List.length_append, show (qualified z).2 = d :: z from rest, List.length_cons] at long
        omega
    | cons d r =>
      have start' : startsName (d :: (r ++ ';' :: w)) = true := start
      exact ⟨piece (by simp [Start.of, isGap, start']), .cons '\\' (alike (List.cons_ne_nil _ _))⟩

/-- A closing bracket is no part of a longer operator, so it ends in front of a semicolon. -/
theorem of_punct (closing : ∀ p, k = .punct p → p = .closeParen ∨ p = .closeBracket)
    (h : punctPiece c (r ++ z) = .ok (.token k z)) (w : List Char) : Closes k c r z w := by
  rw [punctPiece] at h
  split at h
  · rename_i p rest read
    obtain ⟨rfl, rfl⟩ := token_injective (Except.ok.inj h)
    have text : c :: r = symbol p := List.append_cancel_right (punct?_eq_some.1 read).1
    rcases closing p rfl with rfl | rfl
    · obtain ⟨rfl, rfl⟩ : c = ')' ∧ r = [] := List.cons.inj text
      exact ⟨rfl, alike_of_isSolid rfl (by decide)⟩
    · obtain ⟨rfl, rfl⟩ : c = ']' ∧ r = [] := List.cons.inj text
      exact ⟨rfl, alike_of_isSolid rfl (by decide)⟩
  · cases h

end Closes

/-- The token that an operand ends with is cut off in front of a semicolon as well, and but for its last
characters nothing tells the texts apart. -/
theorem Fits.semicolon {k : TokenKind} {l z : List Char} (h : Fits k l z)
    (closing : ∀ p, k = .punct p → p = .closeParen ∨ p = .closeBracket) (w : List Char) :
    Fits k l (';' :: w) ∧ Alike True (l ++ z) (l ++ ';' :: w) := by
  obtain ⟨c, r, rfl, here⟩ := h
  obtain ⟨dollar, single, double, heredoc, number, word⟩ := start_token (c := c) (r := r ++ z)
  have closes : Closes k c r z w := by
    unfold scriptPiece at here
    cases hs : Start.of c (r ++ z) with
    | blank | lineComment => rw [hs] at here; cases here
    | closeTag => rw [hs] at here; cases congrArg Piece.mode (Except.ok.inj here)
    | hashBracket | backtick => rw [hs] at here; cases here
    | blockComment =>
      rw [hs] at here
      dsimp only [blockCommentPiece] at here
      split at here <;> cases here
    | dollar =>
      rw [hs] at here
      exact dollar hs ▸ .of_variable here w
    | singleQuote =>
      rw [hs] at here
      exact single hs ▸ .of_singleQuoted here w
    | doubleQuote =>
      rw [hs] at here
      exact double hs ▸ .of_doubleQuoted here w
    | heredoc =>
      rw [hs] at here
      exact (heredoc hs).1 ▸ .of_heredoc (heredoc hs).2 here w
    | number =>
      rw [hs] at here
      exact .of_number (number hs) here w
    | name =>
      rw [hs] at here
      exact .of_name (word hs) (Except.ok.inj here) w
    | punct =>
      rw [hs] at here
      exact .of_punct closing here w
  exact ⟨⟨c, r, rfl, closes.piece⟩, closes.alike⟩

namespace Lexes

/-- Pieces of script are cut off in front of every text that is alike and begins with the same
character. -/
theorem alike {loose : Prop} {v' : List Char} {m' : Mode} {p : Place} {cs : List Char}
    {ts : List Token} (alike : Alike loose v v') (heads : v'.head? = v.head?)
    (h : Lexes v .script p cs ts m') (noTag : ∀ t ∈ ts, t.kind ≠ .closeTag) :
    Lexes v' .script p cs ts m' := by
  generalize script : Mode.script = m at h
  induction h with
  | done => exact .done
  | @piece m m₁ m' p c w g cs kinds ts here more ih =>
    subst script
    have heads' : (cs ++ v').head? = (cs ++ v).head? := by
      cases cs with
      | nil => exact heads
      | cons d cs => rfl
    rcases scriptPiece_cases here with ⟨rfl, same⟩ | ⟨-, same⟩
    · obtain rfl := List.append_left_eq_self.1 same
      exact .piece (scriptPiece_alike (alike.append cs) (.inr heads') here)
        (ih (fun t ht ↦ noTag t (List.mem_append_right _ ht)) rfl)
    · obtain ⟨rfl, -⟩ := Piece.mk.inj same
      exact absurd rfl (noTag _ (List.mem_append_left _ (List.mem_singleton_self _)))

/-- The tokens of an operand are cut off in front of a semicolon as well. -/
theorem semicolon {z : List Char} {p : Place} {cs : List Char} {ts : List Token} {t : Token}
    (h : Lexes z .script p cs (ts ++ [t]) .script) (script : ∀ u ∈ ts ++ [t], isScript u.kind)
    (closing : ∀ q, t.kind = .punct q → q = .closeParen ∨ q = .closeBracket)
    (stop : t.span.stop = (p.past cs).offset) (w : List Char) :
    Lexes (';' :: w) .script p cs (ts ++ [t]) .script := by
  have last : isScript t.kind := script t (by simp)
  obtain ⟨x, text, y, rfl, front, fits, token, -⟩ := h.split last fun _ o ho hk ↦ by
    have := script o (List.mem_append_left _ (List.mem_of_getLast? ho))
    rw [hk] at this
    cases this
  obtain rfl : y = [] := by
    refine eq_nil_of_byteLength ?_
    have here : t.span.stop = ((p.past x).past text).offset := congrArg (·.span.stop) token
    rw [here] at stop
    simp only [Place.offset_past, Text.byteLength_append] at stop
    omega
  rw [List.nil_append] at front fits
  obtain ⟨fits', same⟩ := fits.semicolon closing w
  have heads : (text ++ ';' :: w).head? = (text ++ z).head? := by
    obtain ⟨c, r, rfl, -⟩ := fits
    rfl
  have front' := front.alike same heads fun u hu hk ↦ by
    have := script u (List.mem_append_left _ hu)
    rw [hk] at this
    cases this
  have piece := fits'.lexes (p.past x)
  rw [← token] at piece
  rw [List.append_nil]
  exact front'.append piece

end Lexes

end ConfigScript.Script
