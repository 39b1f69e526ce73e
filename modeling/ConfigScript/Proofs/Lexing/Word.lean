import ConfigScript.Proofs.Lexing.Gap

/-!
# Words

A word is a token with its text and the gap in front of it. A list of words is a text and a list of
tokens at once, and if every word fits in front of what follows it, cutting the text gives the
tokens (`Words.lexes`). So a text with known tokens is written down as its words, and what has to be
checked is one fact a word. The second half collects these facts: a quoted text and a bracket fit
in front of everything, a name and an operator in front of what does not go on with them.
-/

namespace ConfigScript.Script

/-- A token with its text and the gap in front of it. -/
structure Word where
  gap : List Char
  kind : TokenKind
  text : List Char

/-- A token that begins at `p`. -/
def tokenAt (p : Place) (kind : TokenKind) (text : List Char) : Token :=
  ⟨kind, Span.ofPlace p (p.past text).offset, text⟩

@[simp]
theorem kind_tokenAt (p : Place) (kind : TokenKind) (text : List Char) :
    (tokenAt p kind text).kind = kind := rfl

/-- The text is cut off as one token of the given kind when `rest` follows. -/
def Fits (kind : TokenKind) (text rest : List Char) : Prop :=
  ∃ c r, text = c :: r ∧ scriptPiece c (r ++ rest) = .ok (.token kind rest)

/-- Text that fits a token is cut into that token. -/
theorem Fits.lexes {kind : TokenKind} {text rest : List Char} (h : Fits kind text rest)
    (p : Place) : Lexes rest .script p text [tokenAt p kind text] .script := by
  obtain ⟨c, r, rfl, here⟩ := h
  have cut := @Lexes.piece rest .script .script .script p c r [] [] [kind] [] here .done
  simpa [tokenAt] using cut

/-- A text that fits is one token wherever it stands, with just that text for its span, and the lexer goes
on behind it. -/
theorem Fits.tokensFrom {kind : TokenKind} {text rest : List Char} (h : Fits kind text rest)
    (front : List Char) : ∃ s : Span, s.start = Text.byteLength front ∧
      s.stop = Text.byteLength front + Text.byteLength text ∧ s.text (front ++ text ++ rest) = text ∧
      tokensFrom .script (Place.start.past front) (text ++ rest) =
        (tokensFrom .script (Place.start.past (front ++ text)) rest).map (⟨kind, s, text⟩ :: ·) := by
  have start : (Place.start.past front).offset = Text.byteLength front := by
    rw [Place.offset_past, Place.start, Nat.zero_add]
  have stop : ((Place.start.past front).past text).offset =
      Text.byteLength front + Text.byteLength text := by
    rw [Place.offset_past, start]
  refine ⟨(tokenAt (Place.start.past front) kind text).span, start, stop, ?_, ?_⟩
  · rw [Span.text, tokenAt, Span.ofPlace, start, stop, Text.sliceBytes_append]
  · rw [(h.lexes (Place.start.past front)).tokensFrom_append, Place.past_append]
    rfl

/-- An opening tag is one token, and the blank or line feed behind it belongs to it. -/
theorem lexes_openTag {c : Char} (blank : c = ' ' ∨ c = '\n') (rest : List Char) :
    Lexes rest .html .start ("<?php".toList ++ [c]) [tokenAt .start .openTag "<?php".toList]
      .script := by
  have one (c : Char) (here : piece .html '<' ("?php".toList ++ ([c] ++ rest)) =
      .ok ⟨[.openTag], [c] ++ rest, rest, .script⟩) := @Lexes.piece rest .html .script .script .start
    '<' "?php".toList [c] [] [.openTag] [] here .done
  rcases blank with rfl | rfl
  · exact one ' ' rfl
  · exact one '\n' rfl

namespace Words

/-- The text of words. -/
def text (ws : List Word) : List Char := ws.flatMap fun w ↦ w.gap ++ w.text

/-- The tokens of words whose text begins at `p`. -/
def tokens (p : Place) : List Word → List Token
  | [] => []
  | w :: ws => tokenAt (p.past w.gap) w.kind w.text :: tokens (p.past (w.gap ++ w.text)) ws

/-- Every word fits in front of the words behind it and `rest`. -/
def Fit (rest : List Char) : List Word → Prop
  | [] => True
  | w :: ws => Gap w.gap ∧ Fits w.kind w.text (text ws ++ rest) ∧ Fit rest ws

@[simp]
theorem text_nil : text [] = [] := rfl

@[simp]
theorem text_cons (w : Word) (ws : List Word) : text (w :: ws) = w.gap ++ w.text ++ text ws := rfl

/-- Words that fit are cut into their tokens. -/
theorem lexes {rest : List Char} {ws : List Word} (h : Fit rest ws) (p : Place) :
    Lexes rest .script p (text ws) (tokens p ws) .script := by
  induction ws generalizing p with
  | nil => exact .done
  | cons w ws ih =>
    obtain ⟨gap, fits, more⟩ := h
    have front : Lexes (text ws ++ rest) .script p (w.gap ++ w.text)
        [tokenAt (p.past w.gap) w.kind w.text] .script := by
      simpa using (gap _ p).append (fits.lexes _)
    simpa [tokens] using front.append (ih more _)

end Words

/-! ### What fits where -/

/-- The text does not go on with a name. -/
def EndsName (rest : List Char) : Prop := ∀ c ∈ rest.head?, isNameChar c = false ∧ c ≠ '\\'

/-- A name ends where its characters do. -/
theorem name_append_of_ends {cs rest : List Char} (h : ∀ c ∈ cs, isNameChar c)
    (ends : EndsName rest) : name (cs ++ rest) = (cs, rest) := by
  have stops : rest.takeWhile isNameChar = [] ∧ rest.dropWhile isNameChar = rest := by
    cases rest with
    | nil => exact ⟨rfl, rfl⟩
    | cons c rest => simp [(ends c rfl).1]
  simp [name, List.takeWhile_append_of_pos h, List.dropWhile_append_of_pos h, stops]

/-- A name without backslashes ends where its characters do. -/
theorem qualified_append_of_ends {cs rest : List Char} (h : ∀ c ∈ cs, isNameChar c)
    (ends : EndsName rest) : qualified (cs ++ rest) = (cs, rest) := by
  induction cs with
  | nil =>
    cases rest with
    | nil => rfl
    | cons c rest => simp [qualified, (ends c rfl).1, (ends c rfl).2]
  | cons c cs ih =>
    have here : isNameChar c := h c List.mem_cons_self
    simp [qualified, here, ih fun d hd ↦ h d (List.mem_cons_of_mem c hd)]

/-- A character that begins a name begins nothing else. -/
theorem Start.of_nameStart {c : Char} (h : isNameStart c) (r : List Char) :
    Start.of c r = .name := by
  have ne : ∀ d : Char, isNameStart d = false → c ≠ d := by
    rintro d hd rfl
    rw [h] at hd
    cases hd
  have digit : c.isDigit = false := by
    cases hd : c.isDigit with
    | false => rfl
    | true =>
      simp only [Char.isDigit, Bool.and_eq_true, decide_eq_true_eq] at hd
      delta isNameStart Char.isAlpha Char.isUpper Char.isLower at h
      simp only [Bool.or_eq_true, Bool.and_eq_true, decide_eq_true_eq, beq_iff_eq] at h
      simp only [UInt32.le_iff_toNat_le] at h hd
      rcases h with (h | h) | h
      · have := hd.2
        change c.val.toNat ≤ 57 at this
        rcases h with ⟨h, _⟩ | ⟨h, _⟩
        · change 65 ≤ c.val.toNat at h
          omega
        · change 97 ≤ c.val.toNat at h
          omega
      · subst h
        exact absurd hd.2 (by decide)
      · have := hd.2
        change c.val.toNat ≤ 57 at this
        change 128 ≤ c.val.toNat at h
        omega
  have gap : isGap c = false := by
    simp only [isGap, Bool.or_eq_false_iff, beq_eq_false_iff_ne]
    exact ⟨⟨⟨⟨⟨ne _ (by decide), ne _ (by decide)⟩, ne _ (by decide)⟩, ne _ (by decide)⟩,
      ne _ (by decide)⟩, ne _ (by decide)⟩
  have other : ∀ d : Char, isNameStart d = false → (c == d) = false := fun d hd ↦
    beq_eq_false_iff_ne.2 (ne d hd)
  unfold Start.of
  simp [gap, digit, h, other '?' (by decide), other '#' (by decide), other '/' (by decide),
    other '$' (by decide), other '\'' (by decide), other '"' (by decide),
    other '\x60' (by decide), other '<' (by decide), other '.' (by decide)]

/-- A word of the language fits where no name goes on. -/
theorem fits_ident {c : Char} {r rest : List Char} (hc : isNameStart c)
    (hr : ∀ d ∈ r, isNameChar d) (ends : EndsName rest) :
    Fits (.ident (String.ofList (c :: r))) (c :: r) rest := by
  refine ⟨c, r, rfl, ?_⟩
  have plain : unrooted (c :: r) = c :: r := by
    unfold unrooted
    split
    · rename_i heq
      injection heq with hd _
      subst hd
      exact absurd hc (by decide)
    · rfl
  rw [scriptPiece, Start.of_nameStart hc]
  simp only [namePiece, qualified_append_of_ends hr ends, plain]

/-- A variable fits where no name goes on. -/
theorem fits_var {c : Char} {r rest : List Char} (hc : isNameStart c)
    (hr : ∀ d ∈ r, isNameChar d) (ends : EndsName rest) :
    Fits (.var (String.ofList (c :: r))) ('$' :: c :: r) rest := by
  refine ⟨'$', c :: r, rfl, ?_⟩
  have all : ∀ d ∈ c :: r, isNameChar d := by
    intro d hd
    rcases List.mem_cons.1 hd with rfl | hd
    · exact isNameChar_of_isNameStart hc
    · exact hr d hd
  have starts : startsName (c :: r ++ rest) = true := by simpa [startsName] using hc
  show variablePiece (c :: r ++ rest) = _
  rw [variablePiece, if_pos starts, name_append_of_ends all ends]

/-- A quoted text fits everywhere. -/
theorem fits_quote (cs rest : List Char) :
    Fits (.str [.text (String.ofList cs)]) (Quoted.quote cs) rest := by
  refine ⟨'\'', Quoted.escape cs ++ ['\''], rfl, ?_⟩
  show singleQuotedPiece (Quoted.escape cs ++ ['\''] ++ rest) = _
  rw [List.append_assoc]
  simp only [List.cons_append, List.nil_append, singleQuotedPiece, Quoted.read?_escape]

/-- So does a quoted string. -/
theorem fits_string (s : String) (rest : List Char) :
    Fits (.str [.text s]) (Quoted.quote s.toList) rest := by
  simpa using fits_quote s.toList rest

/-- The brackets, the comma and the semicolon fit everywhere. -/
theorem fits_bracket {p : Punct} {c : Char} (rest : List Char)
    (h : (p, c) ∈ [(Punct.openParen, '('), (.closeParen, ')'), (.openBrace, '\x7b'),
      (.closeBrace, '\x7d'), (.comma, ','), (.semicolon, ';')]) : Fits (.punct p) [c] rest := by
  refine ⟨c, [], rfl, ?_⟩
  simp only [List.mem_cons, Prod.mk.injEq, List.not_mem_nil, or_false] at h
  rcases h with ⟨rfl, rfl⟩ | ⟨rfl, rfl⟩ | ⟨rfl, rfl⟩ | ⟨rfl, rfl⟩ | ⟨rfl, rfl⟩ | ⟨rfl, rfl⟩ <;> rfl

end ConfigScript.Script
