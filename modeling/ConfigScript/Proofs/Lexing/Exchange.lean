import ConfigScript.Proofs.Lexing.Closed
import ConfigScript.Proofs.Lexing.Gap

/-!
# Exchanging what follows

A text that is cut into tokens in front of one text is cut into the same tokens in front of another
one, if no reader that stops there can tell them apart: behind an edge everything may be exchanged
(`Lexes.exchange`), and behind an operand everything in front of which one may end
(`Lexes.exchange_ends`).
-/

namespace ConfigScript.Script

variable {loose : Prop} {c : Char} {r r' w v v' : List Char}

/-! ### What a piece is -/

/-- Alike texts begin alike, as far as a character that is not quiet is looked for. -/
theorem head_beq_alike {x : Char} (hx : isQuiet x = false) (alike : Alike loose r r') :
    (r'.head? == some x) = (r.head? == some x) := by
  have eq_any : ∀ s : List Char, (s.head? == some x) = s.head?.any (· == x) := by
    intro s
    cases s <;> rfl
  rw [eq_any, eq_any, alike.any_head]
  intro d hd
  refine beq_eq_false_iff_ne.2 ?_
  rintro rfl
  rw [hx] at hd
  cases hd

/-- A heredoc begins in front of both of two alike texts or of none. -/
theorem shifts_alike (alike : Alike loose r r') :
    ['<', '<'].isPrefixOf r' = ['<', '<'].isPrefixOf r := by
  have none_of_ends : ∀ {s : List Char}, endsHere s → ['<', '<'].isPrefixOf s = false := by
    intro s hs
    cases s with
    | nil => rfl
    | cons d s =>
      have quiet := isQuiet_of_endsHere hs
      have ne : ('<' == d) = false := forall_isQuiet (p := fun d ↦ ('<' == d) = false) (by decide) d quiet
      rw [List.isPrefixOf, ne]
      rfl
  cases alike with
  | @edge d hd s s' =>
    simp only [isEdge, Bool.or_eq_true, beq_iff_eq] at hd
    rcases hd with (rfl | rfl) | rfl <;> rfl
  | ends _ h h' => rw [none_of_ends h, none_of_ends h']
  | @solid d s s' _ solid =>
    have ne : ('<' == d) = false := by
      refine beq_eq_false_iff_ne.2 ?_
      rintro rfl
      exact absurd solid (by decide)
    rw [List.isPrefixOf, List.isPrefixOf, ne]
    rfl
  | @cons s s' d more =>
    have second := head_beq_alike (x := '<') (by decide) more
    have eq_head : ∀ s : List Char, ['<'].isPrefixOf s = (s.head? == some '<') := by
      intro s
      cases s with
      | nil => rfl
      | cons e s => simp [List.isPrefixOf, Bool.beq_comm]
    rw [List.isPrefixOf, List.isPrefixOf, eq_head, eq_head, second]

/-- What begins with a character is the same in front of alike texts, unless it is a slash: behind a
slash, the next character decides between a comment and a division. -/
theorem start_alike (alike : Alike loose r r') (slash : c = '/' → r'.head? = r.head?) :
    Start.of c r' = Start.of c r := by
  have comment : ∀ x, (c == '/' && r'.head? == some x) = (c == '/' && r.head? == some x) := by
    intro x
    by_cases hc : c = '/'
    · rw [slash hc]
    · rw [beq_eq_false_iff_ne.2 hc]
      rfl
  have bracket : (r'.head? != some '[') = (r.head? != some '[') :=
    congrArg _ (head_beq_alike (x := '[') (by decide) alike)
  unfold Start.of startsName
  rw [comment, comment, bracket, head_beq_alike (x := '>') (by decide) alike, shifts_alike alike,
    alike.any_head isDigit_of_isQuiet, alike.any_head isNameStart_of_isQuiet]

/-! ### Pieces of script -/

/-- Whether a piece with these tokens ends in front of whatever may stand behind an operand. -/
def isFirm : List TokenKind → Bool
  | [] => false
  | [.punct p] => isLone p
  | _ => true

/-- The rest of a piece that is one token. -/
theorem token_inj {kind : TokenKind} {kinds : List TokenKind} {rest a b : List Char} {m : Mode}
    (h : Piece.token kind rest = ⟨kinds, a, b, m⟩) : kinds = [kind] ∧ rest = a ∧ rest = b := by
  cases h
  exact ⟨rfl, rfl, rfl⟩

theorem gap_inj {kinds : List TokenKind} {rest a b : List Char} {m : Mode}
    (h : Piece.gap rest = ⟨kinds, a, b, m⟩) : kinds = [] ∧ rest = a := by
  cases h
  exact ⟨rfl, rfl⟩

/-- A piece that was read is one token. -/
theorem exists_ofRead {α : Type} {kind : α → TokenKind} {x : Except Fault (α × List Char)}
    {pc : Piece} (h : Piece.ofRead kind x = .ok pc) :
    ∃ a rest, x = .ok (a, rest) ∧ pc = .token (kind a) rest := by
  unfold Piece.ofRead at h
  split at h
  · exact ⟨_, _, rfl, (Except.ok.inj h).symm⟩
  · cases h

/-- A slash begins a comment or an operator. -/
theorem start_slash (r : List Char) : Start.of '/' r = .lineComment ∨ Start.of '/' r = .blockComment ∨
    Start.of '/' r = .punct := by
  by_cases line : r.head? = some '/'
  · exact .inl (by simp [Start.of, isGap, line])
  by_cases block : r.head? = some '*'
  · exact .inr (.inl (by simp [Start.of, isGap, block]))
  · refine .inr (.inr ?_)
    simp [Start.of, isGap, line, block, isNameStart]

/-- What begins with a slash and is firm goes on behind it. -/
theorem ne_slash_of_isFirm {kinds : List TokenKind} (firm : isFirm kinds)
    (h : scriptPiece c v = .ok ⟨kinds, v, v, .script⟩) : c ≠ '/' := by
  rintro rfl
  unfold scriptPiece at h
  rcases start_slash v with hs | hs | hs <;> rw [hs] at h
  · obtain ⟨rfl, -⟩ := gap_inj (Except.ok.inj h)
    cases firm
  · dsimp only [blockCommentPiece] at h
    split at h
    · obtain ⟨rfl, -⟩ := gap_inj (Except.ok.inj h)
      cases firm
    · cases h
  · dsimp only [punctPiece] at h
    split at h
    · rename_i p rest read
      obtain ⟨rfl, rest, -⟩ := token_inj (Except.ok.inj h)
      rw [rest] at read
      have text := (punct?_eq_some.1 read).1
      have whole : symbol p = symbol .divide := (List.append_cancel_right text).symm
      rw [symbol_injective whole] at firm
      exact absurd firm (by decide +kernel)
    · cases h

/-! ### Pieces that say themselves where they end -/

section Closed

variable {kinds : List TokenKind} {w v : List Char}

/-- A block comment is the same piece in front of every text. -/
theorem blockCommentPiece_append (h : blockCommentPiece (w ++ v) = .ok ⟨kinds, v, v, .script⟩)
    (v' : List Char) : blockCommentPiece (w ++ v') = .ok ⟨kinds, v', v', .script⟩ := by
  rw [blockCommentPiece] at h ⊢
  split at h
  · rename_i rest closed
    obtain ⟨rfl, rfl⟩ := gap_inj (Except.ok.inj h)
    obtain ⟨u, text, all⟩ := exists_blockComment closed
    cases w with
    | nil =>
      have short := congrArg List.length text
      rw [List.nil_append, List.length_drop, List.length_append] at short
      obtain rfl := List.length_eq_zero_iff.1 (show u.length = 0 by omega)
      cases all []
    | cons d w =>
      rw [List.cons_append, List.drop_succ_cons, List.drop_zero] at text ⊢
      rw [List.append_cancel_right text, all]
      rfl
  · cases h

/-- A text in single quotes is the same token in front of every text. -/
theorem singleQuotedPiece_append (h : singleQuotedPiece (w ++ v) = .ok ⟨kinds, v, v, .script⟩)
    (v' : List Char) : singleQuotedPiece (w ++ v') = .ok ⟨kinds, v', v', .script⟩ := by
  rw [singleQuotedPiece] at h ⊢
  split at h
  · rename_i read
    obtain ⟨rfl, rfl, -⟩ := token_inj (Except.ok.inj h)
    obtain ⟨u, text, all⟩ := exists_quoted read
    rw [List.append_cancel_right text, all]
    rfl
  · cases h

/-- A text in double quotes is the same token in front of every text. -/
theorem doubleQuotedPiece_append (h : doubleQuotedPiece (w ++ v) = .ok ⟨kinds, v, v, .script⟩)
    (v' : List Char) : doubleQuotedPiece (w ++ v') = .ok ⟨kinds, v', v', .script⟩ := by
  obtain ⟨fs, rest, read, same⟩ := exists_ofRead h
  obtain ⟨rfl, rfl, -⟩ := token_inj same.symm
  obtain ⟨u, text, all⟩ := exists_interpolated read
  rw [← List.singleton_append, ← List.append_assoc] at text
  rw [List.append_cancel_right text, List.append_assoc, doubleQuotedPiece, List.singleton_append, all]
  rfl

/-- A heredoc ends with its label, which must not go on. -/
theorem heredocPiece_append
    (h : Piece.ofRead .str (Heredoc.read ((w ++ v).drop 2)) = .ok ⟨kinds, v, v, .script⟩)
    {v' : List Char} (word : Heredoc.SameWord v v') :
    Piece.ofRead .str (Heredoc.read ((w ++ v').drop 2)) = .ok ⟨kinds, v', v', .script⟩ := by
  obtain ⟨parts, rest, read, same⟩ := exists_ofRead h
  obtain ⟨rfl, rfl, -⟩ := token_inj same.symm
  obtain ⟨u, text, all⟩ := Heredoc.exists_read read
  match w with
  | d :: e :: w =>
    simp only [List.cons_append, List.drop_succ_cons, List.drop_zero] at text ⊢
    rw [List.append_cancel_right text, all v' word]
    rfl
  | [] | [d] =>
    have short := congrArg List.length text
    rw [List.length_drop, List.length_append, List.length_append] at short
    obtain rfl := List.length_eq_zero_iff.1 (show u.length = 0 by simp at short; omega)
    obtain rfl := List.length_eq_zero_iff.1 (show rest.length = 0 by simp at short; omega)
    cases all [] rfl

end Closed

/-- A piece of script is cut off in front of every text that is alike. -/
theorem scriptPiece_alike {kinds : List TokenKind} (alike : Alike loose v v')
    (firm : isFirm kinds ∨ v'.head? = v.head?)
    (h : scriptPiece c (w ++ v) = .ok ⟨kinds, v, v, .script⟩) :
    scriptPiece c (w ++ v') = .ok ⟨kinds, v', v', .script⟩ := by
  -- A slash asks for the character behind it, to tell a comment from a division.
  have slash : c = '/' → (w ++ v').head? = (w ++ v).head? := by
    cases w with
    | nil => exact fun hc ↦ firm.resolve_left fun firm ↦ ne_slash_of_isFirm firm h hc
    | cons d w => exact fun _ ↦ rfl
  -- So the same kind of piece begins in both texts.
  have same := start_alike (alike.append w) slash
  unfold scriptPiece at h ⊢
  rw [same]
  cases hs : Start.of c (w ++ v) with
  | blank =>
    rw [hs] at h
    obtain ⟨rfl, rest⟩ := gap_inj (Except.ok.inj h)
    obtain rfl := List.append_left_eq_self.1 rest
    rfl
  | closeTag =>
    rw [hs] at h
    cases congrArg Piece.mode (Except.ok.inj h)
  | lineComment =>
    rw [hs] at h
    obtain ⟨rfl, rest⟩ := gap_inj (Except.ok.inj h)
    exact congrArg (fun r ↦ (.ok (Piece.gap r) : Except Fault Piece))
      (afterLineComment_alike rest alike (firm.resolve_left (by decide)).symm)
  | blockComment =>
    rw [hs] at h
    exact blockCommentPiece_append h v'
  | hashBracket => rw [hs] at h; cases h
  | dollar =>
    rw [hs] at h
    dsimp only [variablePiece] at h ⊢
    split at h
    · rename_i starts
      obtain ⟨rfl, rest, -⟩ := token_inj (Except.ok.inj h)
      have same : startsName (w ++ v') = startsName (w ++ v) :=
        (alike.append w).any_head isNameStart_of_isQuiet
      rw [if_pos (same.trans starts), name_alike (Prod.ext rfl rest) alike]
      rfl
    · cases h
  | singleQuote =>
    rw [hs] at h
    exact singleQuotedPiece_append h v'
  | doubleQuote =>
    rw [hs] at h
    exact doubleQuotedPiece_append h v'
  | backtick => rw [hs] at h; cases h
  | heredoc =>
    rw [hs] at h
    exact heredocPiece_append h (alike.any_head isNameChar_of_isQuiet)
  | number =>
    rw [hs] at h
    obtain ⟨k, rest, read, same⟩ := exists_ofRead h
    obtain ⟨rfl, rfl, -⟩ := token_inj same.symm
    dsimp only
    rw [number_alike read alike]
    rfl
  | name =>
    rw [hs] at h
    obtain ⟨rfl, rest, -⟩ := token_inj (Except.ok.inj h)
    dsimp only [namePiece]
    rw [qualified_alike (Prod.ext rfl rest) alike]
    rfl
  | punct =>
    rw [hs] at h
    dsimp only [punctPiece] at h ⊢
    split at h
    · rename_i p rest read
      obtain ⟨rfl, rest, -⟩ := token_inj (Except.ok.inj h)
      have firm' : isLone p ∨ v.head? = v'.head? := firm.imp id Eq.symm
      rw [← List.cons_append, rest] at read
      rw [← List.cons_append]
      rw [punct?_alike read alike firm']
      rfl
    · cases h

/-! ### Tags and the text around the script -/

/-- Whether the word of the long opening tag stands here, with white space or nothing behind it. -/
def startsWord : List Char → Bool
  | p :: h :: q :: s => sameWord [p, h, q] ['p', 'h', 'p'] && s.head?.all Text.isBlank
  | _ => false

/-- The word of the long opening tag stands in front of both of two alike texts or of none: the texts
differ only behind a character that is looked at. -/
theorem startsWord_alike (alike : Alike False r r') : startsWord r' = startsWord r := by
  have edges : ∀ {e : Char}, isEdge e → e.toLower ≠ 'p' ∧ e.toLower ≠ 'h' := by
    intro e he
    simp only [isEdge, Bool.or_eq_true, beq_iff_eq] at he
    rcases he with (rfl | rfl) | rfl <;> decide
  have fails : ∀ p h q : Char, (p.toLower ≠ 'p' ∨ h.toLower ≠ 'h' ∨ q.toLower ≠ 'p') →
      sameWord [p, h, q] ['p', 'h', 'p'] = false := by
    intro p h q ne
    have word : lower ['p', 'h', 'p'] = ['p', 'h', 'p'] := rfl
    rw [sameWord, word]
    simp only [lower, List.map_cons, List.map_nil]
    refine beq_eq_false_iff_ne.2 fun same ↦ ?_
    simp only [List.cons.injEq, and_true] at same
    rcases ne with ne | ne | ne
    · exact ne same.1
    · exact ne same.2.1
    · exact ne same.2.2
  have first : ∀ {e : Char}, isEdge e → ∀ s, startsWord (e :: s) = false := by
    rintro e he (_ | ⟨h, _ | ⟨q, s⟩⟩)
    · rfl
    · rfl
    · rw [startsWord, fails _ _ _ (.inl (edges he).1)]
      rfl
  have second : ∀ {e : Char}, isEdge e → ∀ p s, startsWord (p :: e :: s) = false := by
    rintro e he p (_ | ⟨q, s⟩)
    · rfl
    · rw [startsWord, fails _ _ _ (.inr (.inl (edges he).2))]
      rfl
  have third : ∀ {e : Char}, isEdge e → ∀ p h s, startsWord (p :: h :: e :: s) = false := by
    intro e he p h s
    rw [startsWord, fails _ _ _ (.inr (.inr (edges he).1))]
    rfl
  cases alike with
  | edge he => rw [first he, first he]
  | ends no | solid no => exact no.elim
  | cons p more =>
    cases more with
    | edge he => rw [second he, second he]
    | ends no | solid no => exact no.elim
    | cons h more =>
      cases more with
      | edge he => rw [third he, third he]
      | ends no | solid no => exact no.elim
      | cons q more => rw [startsWord, startsWord, more.head_eq]

/-- An opening tag is short with an equals sign, or long with its word. -/
theorem opening?_eq (r : List Char) : opening? ('<' :: '?' :: r) =
    if r.head? = some '=' then some .echo else if startsWord r then some .full else none := by
  by_cases echo : r.head? = some '='
  · rw [if_pos echo]
    cases r with
    | nil => cases echo
    | cons c r =>
      obtain rfl := Option.some.inj echo
      rfl
  · rw [if_neg echo]
    match r with
    | [] | [_] | [_, _] => simp_all [opening?, startsWord]
    | p :: h :: q :: s =>
      rw [opening?]
      · rfl
      · rintro rfl
        exact echo rfl

theorem opening?_of_ne {c : Char} {r : List Char} (h : c ≠ '<' ∨ r.head? ≠ some '?') :
    opening? (c :: r) = none := by
  unfold opening?
  split <;> simp_all

/-- The same opening tag begins in front of alike texts, if any does. -/
theorem opening?_alike (alike : Alike False r r') : opening? r' = opening? r := by
  have edge : ∀ {e : Char}, isEdge e → e ≠ '<' ∧ e ≠ '?' := by
    intro e he
    simp only [isEdge, Bool.or_eq_true, beq_iff_eq] at he
    rcases he with (rfl | rfl) | rfl <;> decide
  cases alike with
  | edge he => rw [opening?_of_ne (.inl (edge he).1), opening?_of_ne (.inl (edge he).1)]
  | ends no | solid no => exact no.elim
  | @cons s s' c more =>
    by_cases begins : c = '<' ∧ s.head? = some '?'
    · obtain ⟨rfl, mark⟩ := begins
      cases more with
      | edge he => exact absurd (Option.some.inj mark) (edge he).2
      | ends no | solid no => exact no.elim
      | cons d more =>
        obtain rfl := Option.some.inj mark
        rw [opening?_eq, opening?_eq, more.head_eq, startsWord_alike more]
    · have ne : c ≠ '<' ∨ s.head? ≠ some '?' := by
        by_cases hc : c = '<'
        · exact .inr fun mark ↦ begins ⟨hc, mark⟩
        · exact .inl hc
      rw [opening?_of_ne ne, opening?_of_ne (by rwa [← more.head_eq])]

/-- Text outside of script ends in the same place in front of alike texts. -/
theorem afterHtml_alike (alike : Alike False v v') (h : afterHtml (w ++ v) = v) :
    afterHtml (w ++ v') = v' := by
  induction w with
  | nil =>
    rw [List.nil_append] at h ⊢
    cases v with
    | nil => exact absurd rfl alike.ne_nil
    | cons c r =>
      have same := opening?_alike alike
      rw [afterHtml] at h
      split at h
      · rename_i opens
        cases v' with
        | nil => cases alike.head_eq
        | cons c' r' => rw [afterHtml, if_pos (by rw [same, opens])]
      · have short := (afterHtml_suffix r).length_le
        rw [h, List.length_cons] at short
        omega
  | cons c w ih =>
    have same := opening?_alike (alike.append (c :: w))
    rw [List.cons_append, afterHtml] at h ⊢
    rw [List.cons_append, List.cons_append] at same
    rw [same]
    split at h
    · have long := congrArg List.length h
      simp only [List.length_cons, List.length_append] at long
      omega
    · rename_i none
      rw [if_neg none]
      exact ih h

/-- The line break or the single character that a tag takes with it; `before` and `behind` tell which
characters those are, in front of the test for a line break of two and behind it. -/
structure TakesGap (f : List Char → List Char) (before behind : Char → Bool) : Prop where
  cons : ∀ c r, f (c :: r) = if before c then r
    else if c = '\r' ∧ r.head? = some '\n' then r.tail else if behind c then r else c :: r

/-- A closing tag takes a line break or a single blank with it. -/
theorem takesGap_afterTagGap : TakesGap afterTagGap (fun _ ↦ false) isTagGap where
  cons c r := by
    rw [if_neg (by decide)]
    by_cases both : c = '\r' ∧ r.head? = some '\n'
    · obtain ⟨rfl, head⟩ := both
      cases r with
      | nil => cases head
      | cons d r =>
        obtain rfl := Option.some.inj head
        rfl
    · rw [if_neg both, afterTagGap]
      rintro s rfl rfl
      exact both ⟨rfl, rfl⟩

/-- An opening tag takes a line break with it. -/
theorem takesGap_afterTagBreak : TakesGap afterTagBreak (· == '\n') (fun _ ↦ false) where
  cons c r := by
    unfold afterTagBreak
    split
    · rename_i eq
      cases eq
      rfl
    · rename_i eq
      cases eq
      rfl
    · rename_i feed both
      have pair : ¬(c = '\r' ∧ r.head? = some '\n') := by
        rintro ⟨rfl, head⟩
        cases r with
        | nil => cases head
        | cons d r => exact both r (by rw [Option.some.inj head])
      rw [if_neg (by rintro hc; exact feed r (by rw [beq_iff_eq.1 hc])), if_neg pair,
        if_neg (by decide)]

/-- A tag takes the same of what follows it in front of alike texts: it looks at two characters, and at
the second one only for a line break. -/
theorem TakesGap.alike {f : List Char → List Char} {before behind : Char → Bool}
    (takes : TakesGap f before behind) {g : List Char} (alike : Alike False v v')
    (h : f (g ++ v) = v) : f (g ++ v') = v' := by
  have longer : ∀ {s : List Char}, s.length ≠ v.length → s = v → False := fun ne eq ↦ ne (by rw [eq])
  -- By the length of the gap: what it takes is at most two characters, so a longer one does not leave
  -- `v`.
  match g with
  | [] =>
    cases v with
    | nil => exact absurd rfl alike.ne_nil
    | cons c r =>
      obtain ⟨r', rfl, heads⟩ : ∃ r', v' = c :: r' ∧ (c = '\r' → r'.head? = r.head?) := by
        cases alike with
        | edge he => exact ⟨_, rfl, by rintro rfl; cases he⟩
        | ends no | solid no => exact no.elim
        | cons _ more => exact ⟨_, rfl, fun _ ↦ more.head_eq.symm⟩
      rw [List.nil_append, takes.cons] at h ⊢
      split at h
      · exact (longer (by simp) h).elim
      split at h
      · exact (longer (by simp) h).elim
      split at h
      · exact (longer (by simp) h).elim
      rename_i first second third
      have second' : ¬(c = '\r' ∧ r'.head? = some '\n') := fun both ↦
        second ⟨both.1, by rw [← heads both.1, both.2]⟩
      rw [if_neg first, if_neg second', if_neg third]
  | [a] =>
    rw [List.singleton_append, takes.cons] at h ⊢
    split at h
    · rename_i first
      rw [if_pos first]
    split at h
    · have := List.length_pos_iff.2 alike.ne_nil
      exact (longer (by simp; omega) h).elim
    split at h
    · rename_i first second third
      rw [if_neg first, if_neg (by rwa [← alike.head_eq]), if_pos third]
    · exact (longer (by simp) h).elim
  | a :: b :: g =>
    rw [List.cons_append, takes.cons] at h ⊢
    split at h
    · exact (longer (by simp; omega) h).elim
    split at h
    · rename_i first second
      have second' : a = '\r' ∧ (b :: g ++ v').head? = some '\n' := second
      rw [if_neg first, if_pos second']
      obtain rfl := List.append_left_eq_self.1 h
      rfl
    split at h
    · exact (longer (by simp; omega) h).elim
    · exact (longer (by simp; omega) h).elim

/-- What is dropped in front of a text is dropped in front of any other. -/
theorem drop_append_of_drop {n : Nat} {x : List Char} (h : (w ++ x).drop n = x) (hx : x ≠ [])
    (x' : List Char) : (w ++ x').drop n = x' := by
  have length : w.length = n := by
    have same := congrArg List.length h
    rw [List.length_drop, List.length_append] at same
    have := List.length_pos_iff.2 hx
    omega
  rw [← length, List.drop_left]

/-- Outside the script a piece is cut off in front of every text that goes on alike. -/
theorem htmlPiece_alike {g : List Char} {kinds : List TokenKind} {m : Mode}
    (alike : Alike False v v') (h : htmlPiece c (w ++ (g ++ v)) = ⟨kinds, g ++ v, v, m⟩) :
    htmlPiece c (w ++ (g ++ v')) = ⟨kinds, g ++ v', v', m⟩ := by
  have same := opening?_alike ((alike.append g).append (c :: w))
  have some : g ++ v ≠ [] := by simp [alike.ne_nil]
  simp only [List.cons_append] at same
  unfold htmlPiece at h ⊢
  rw [same]
  cases ho : opening? (c :: (w ++ (g ++ v))) with
  | none =>
    rw [ho] at h
    obtain ⟨rfl, text, rest, rfl⟩ := Piece.mk.inj h
    obtain rfl := List.append_left_eq_self.1 (text.symm.trans rest)
    rw [List.nil_append] at rest ⊢
    rw [afterHtml_alike alike rest]
  | some o =>
    rw [ho] at h
    cases o with
    | echo =>
      obtain ⟨rfl, text, rest, rfl⟩ := Piece.mk.inj h
      obtain rfl := List.append_left_eq_self.1 (text.symm.trans rest)
      have cut := drop_append_of_drop text some
      simp only [List.nil_append] at cut ⊢
      rw [cut]
    | full =>
      obtain ⟨rfl, text, rest, rfl⟩ := Piece.mk.inj h
      rw [text] at rest
      dsimp only
      rw [drop_append_of_drop text some, takesGap_afterTagGap.alike alike rest]

/-- A piece of script is followed by script, without a gap, or it is a closing tag. -/
theorem scriptPiece_cases {pc : Piece} (h : scriptPiece c r = .ok pc) :
    (pc.mode = .script ∧ pc.afterText = pc.rest) ∨
      (Start.of c r = .closeTag ∧
        pc = ⟨[.closeTag], r.drop 1, afterTagBreak (r.drop 1), .html⟩) := by
  have token : ∀ {kind rest}, (.ok (.token kind rest) : Except Fault Piece) = .ok pc →
      pc.mode = .script ∧ pc.afterText = pc.rest := fun h ↦ Except.ok.inj h ▸ ⟨rfl, rfl⟩
  have gap : ∀ {rest}, (.ok (.gap rest) : Except Fault Piece) = .ok pc →
      pc.mode = .script ∧ pc.afterText = pc.rest := fun h ↦ Except.ok.inj h ▸ ⟨rfl, rfl⟩
  unfold scriptPiece at h
  cases hs : Start.of c r with
  | closeTag => rw [hs] at h; exact .inr ⟨rfl, (Except.ok.inj h).symm⟩
  | blank | lineComment => rw [hs] at h; exact .inl (gap h)
  | hashBracket | backtick => rw [hs] at h; cases h
  | name => rw [hs] at h; exact .inl (token h)
  | doubleQuote | heredoc | number =>
    rw [hs] at h
    obtain ⟨_, _, -, rfl⟩ := exists_ofRead h
    exact .inl ⟨rfl, rfl⟩
  | blockComment =>
    rw [hs] at h
    dsimp only [blockCommentPiece] at h
    split at h
    · exact .inl (gap h)
    · cases h
  | dollar =>
    rw [hs] at h
    dsimp only [variablePiece] at h
    split at h
    · exact .inl (token h)
    · cases h
  | singleQuote =>
    rw [hs] at h
    dsimp only [singleQuotedPiece] at h
    split at h
    · exact .inl (token h)
    · cases h
  | punct =>
    rw [hs] at h
    dsimp only [punctPiece] at h
    split at h
    · exact .inl (token h)
    · cases h

/-- A piece is cut off in front of every text that goes on alike. -/
theorem piece_alike {g : List Char} {kinds : List TokenKind} {m m' : Mode}
    (alike : Alike False v v') (h : piece m c (w ++ (g ++ v)) = .ok ⟨kinds, g ++ v, v, m'⟩) :
    piece m c (w ++ (g ++ v')) = .ok ⟨kinds, g ++ v', v', m'⟩ := by
  cases m with
  | html => exact congrArg _ (htmlPiece_alike alike (Except.ok.inj h))
  | script =>
    rcases scriptPiece_cases h with ⟨rfl, same⟩ | ⟨start, same⟩
    · obtain rfl := List.append_left_eq_self.1 same
      exact scriptPiece_alike alike (.inr alike.head_eq.symm) h
    · obtain ⟨rfl, text, rest, rfl⟩ := Piece.mk.inj same
      rw [← text] at rest
      have start' : Start.of c (w ++ (g ++ v')) = .closeTag := by
        rw [start_alike ((alike.append g).append w) fun slash ↦ ?_, start]
        subst slash
        rcases start_slash (w ++ (g ++ v)) with other | other | other <;> rw [start] at other <;>
          cases other
      show scriptPiece c _ = _
      rw [scriptPiece, start']
      dsimp only
      rw [drop_append_of_drop text.symm (by simp [alike.ne_nil]),
        takesGap_afterTagBreak.alike alike rest.symm]

/-! ### Whole texts -/

namespace Lexes

/-- Behind an edge, everything may be exchanged. -/
theorem exchange {e : Char} {z : List Char} {m m' : Mode} {p : Place} {cs : List Char}
    {ts : List Token} (edge : isEdge e) (h : Lexes (e :: z) m p cs ts m') (z' : List Char) :
    Lexes (e :: z') m p cs ts m' := by
  induction h with
  | done => exact .done
  | @piece m m₁ m' p c w g cs kinds ts here more ih =>
    have alike : Alike False (cs ++ e :: z) (cs ++ e :: z') := (Alike.edge edge z z').append cs
    exact .piece (piece_alike alike here) ih

/-- The text ends with its last token, which is firm. -/
def EndsFirm (p : Place) (cs : List Char) (ts : List Token) : Prop :=
  ∃ t, ts.getLast? = some t ∧ t.span.stop = (p.past cs).offset ∧ isFirm [t.kind]

/-- Only the empty text has no bytes. -/
theorem eq_nil_of_byteLength {cs : List Char} (h : Text.byteLength cs = 0) : cs = [] := by
  cases cs with
  | nil => rfl
  | cons c cs =>
    have := Char.utf8Size_pos c
    rw [Text.byteLength_cons] at h
    omega

/-- The last piece is the firm token, or that ends what is behind the first piece. -/
theorem EndsFirm.cases {p : Place} {text cs : List Char} {kinds : List TokenKind} {ts : List Token}
    (h : EndsFirm p (text ++ cs)
      (kinds.map (fun kind ↦ ⟨kind, Span.ofPlace p (p.past text).offset, text⟩) ++ ts)) :
    (cs = [] ∧ isFirm kinds) ∨ EndsFirm (p.past text) cs ts := by
  obtain ⟨t, last, stop, firm⟩ := h
  rw [List.getLast?_append] at last
  cases hts : ts.getLast? with
  | some u =>
    rw [hts] at last
    obtain rfl := Option.some.inj last
    exact .inr ⟨u, hts, by rw [stop, Place.past_append], firm⟩
  | none =>
    rw [hts, Option.none_or, List.getLast?_map] at last
    obtain ⟨k, hk, rfl⟩ := Option.map_eq_some_iff.1 last
    refine .inl ⟨eq_nil_of_byteLength ?_, ?_⟩
    · simp only [Span.ofPlace, Place.offset_past, Text.byteLength_append] at stop
      omega
    · match kinds, hk with
      | [k'], hk =>
        obtain rfl : k' = k := Option.some.inj hk
        exact firm
      | _ :: _ :: _, _ => simp [isFirm]

/-- Behind an operand, everything may be exchanged in front of which one may end. -/
theorem exchange_ends {s s' : List Char} {m m' : Mode} {p : Place} {cs : List Char} {ts : List Token}
    (hs : endsHere s) (hs' : endsHere s') (h : Lexes s m p cs ts m') (script : m = .script)
    (noTag : ∀ t ∈ ts, t.kind ≠ .closeTag) (firm : cs = [] ∨ EndsFirm p cs ts) :
    Lexes s' m p cs ts m' ∧ m' = .script := by
  induction h with
  | done => exact ⟨.done, script⟩
  | @piece m m₁ m' p c w g cs kinds ts here more ih =>
    subst script
    have alike : Alike True (cs ++ s) (cs ++ s') := (Alike.ends trivial hs hs').append cs
    rcases scriptPiece_cases here with ⟨rfl, same⟩ | ⟨-, same⟩
    · obtain rfl := List.append_left_eq_self.1 same
      have behind := @EndsFirm.cases _ (c :: w) _ _ _ (firm.resolve_left (List.cons_ne_nil _ _))
      have firm' : isFirm kinds ∨ (cs ++ s').head? = (cs ++ s).head? := by
        rcases behind with ⟨-, firm⟩ | ⟨t, last, -⟩
        · exact .inl firm
        · cases cs with
          | nil =>
            cases more
            cases last
          | cons d cs => exact .inr rfl
      obtain ⟨more', rfl⟩ := ih rfl (fun t ht ↦ noTag t (List.mem_append_right _ ht))
        (behind.imp And.left id)
      exact ⟨.piece (scriptPiece_alike alike firm' here) more', rfl⟩
    · obtain ⟨rfl, -⟩ := Piece.mk.inj same
      exact absurd rfl (noTag _ (List.mem_append_left _ (List.mem_singleton_self _)))

end Lexes

end ConfigScript.Script
