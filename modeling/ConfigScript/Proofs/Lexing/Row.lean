import ConfigScript.Proofs.Lexing.Exchange
import ConfigScript.Proofs.Lexing.Word

/-!
# The tokens of a text in a row

Tokens stand one behind the other (`Lexes.laid`), except that `<?=` is two at once. A text is cut in
front of any token of the script (`Lexes.split`); a part without tokens in front of one is a gap
(`gap_of_lexes`). At another place the same text is cut alike, and its tokens move (`Lexes.moved`).
-/

namespace ConfigScript.Script

/-! ### Pieces -/

/-- Whether it is a token of the script, and no tag. -/
def isScript : TokenKind → Bool
  | .inlineHtml | .openTag | .closeTag => false
  | _ => true

/-- Whether it is a number. -/
def isNumber : TokenKind → Bool
  | .int _ | .float _ => true
  | _ => false

theorem isNumber_radixNumber (radix : Nat) (ds : List Char) : isNumber (radixNumber radix ds) := by
  unfold radixNumber
  split <;> rfl

/-- A number in decimal notation is a number. -/
theorem isNumber_decimalNumber (isFloat : Bool) (text : List Char) :
    isNumber (decimalNumber isFloat text) := by
  unfold decimalNumber
  split
  · rfl
  split
  · exact isNumber_radixNumber _ _
  split <;> rfl

/-- What is read as a number is a number, whatever its notation. -/
theorem isNumber_of_number {c : Char} {r rest : List Char} {k : TokenKind}
    (h : number c r = .ok (k, rest)) : isNumber k := by
  unfold number at h
  split at h
  · split at h
    · dsimp only at h
      split at h
      · cases h
      · obtain ⟨rfl, -⟩ := Prod.mk.inj (Except.ok.inj h)
        exact isNumber_radixNumber _ _
    · obtain ⟨rfl, -⟩ := Prod.mk.inj (Except.ok.inj h)
      exact isNumber_decimalNumber _ _
  · obtain ⟨rfl, -⟩ := Prod.mk.inj (Except.ok.inj h)
    exact isNumber_decimalNumber _ _

theorem isScript_of_isNumber {k : TokenKind} (h : isNumber k) : isScript k := by
  cases k <;> first | rfl | cases h

/-- Gaps and closing tags by their first characters. -/
theorem start_cases {c : Char} {r : List Char} :
    (Start.of c r = .blank → isGap c) ∧
      (Start.of c r = .closeTag → c = '?' ∧ r.head? = some '>') ∧
      (Start.of c r = .lineComment → c = '#' ∨ c = '/' ∧ r.head? = some '/') ∧
      (Start.of c r = .blockComment → c = '/' ∧ r.head? = some '*') := by
  unfold Start.of
  by_cases blank : isGap c
  · rw [if_pos blank]
    exact ⟨fun _ ↦ blank, nofun, nofun, nofun⟩
  by_cases tag : c == '?' && r.head? == some '>'
  · rw [if_neg blank, if_pos tag]
    exact ⟨nofun, fun _ ↦ by simpa using tag, nofun, nofun⟩
  by_cases line : (c == '#' && r.head? != some '[') || (c == '/' && r.head? == some '/')
  · rw [if_neg blank, if_neg tag, if_pos line]
    refine ⟨nofun, nofun, fun _ ↦ ?_, nofun⟩
    simp only [Bool.or_eq_true, Bool.and_eq_true, beq_iff_eq] at line
    exact line.imp_left And.left
  by_cases block : c == '/' && r.head? == some '*'
  · rw [if_neg blank, if_neg tag, if_neg line, if_pos block]
    exact ⟨nofun, nofun, nofun, fun _ ↦ by simpa using block⟩
  rw [if_neg blank, if_neg tag, if_neg line, if_neg block]
  refine ⟨?_, ?_, ?_, ?_⟩ <;> intro h <;> grind

/-- What a piece of a gap leaves of the text `r` behind its first character. -/
inductive Skips (c : Char) (r : List Char) : List Char → Prop
  | blank (h : isGap c) : Skips c r r
  | line (start : c = '#' ∨ c = '/' ∧ r.head? = some '/') : Skips c r (afterLineComment r)
  | block {body rest : List Char} (slash : c = '/') (text : r = '*' :: body)
      (closed : afterBlockComment? body = some rest) : Skips c r rest

/-- A piece of script is a token, a part of a gap or a closing tag. -/
theorem scriptPiece_kinds {c : Char} {r : List Char} {pc : Piece} (h : scriptPiece c r = .ok pc) :
    (∃ k rest, pc = .token k rest ∧ isScript k) ∨ (∃ rest, pc = .gap rest ∧ Skips c r rest) ∨
      pc.kinds = [.closeTag] ∧ c = '?' ∧ r.head? = some '>' := by
  unfold scriptPiece at h
  cases hs : Start.of c r with
  | closeTag =>
    rw [hs] at h
    exact .inr (.inr ⟨Except.ok.inj h ▸ rfl, start_cases.2.1 hs⟩)
  | blank =>
    rw [hs] at h
    exact .inr (.inl ⟨_, (Except.ok.inj h).symm, .blank (start_cases.1 hs)⟩)
  | lineComment =>
    rw [hs] at h
    exact .inr (.inl ⟨_, (Except.ok.inj h).symm, .line (start_cases.2.2.1 hs)⟩)
  | hashBracket | backtick => rw [hs] at h; cases h
  | name => rw [hs] at h; exact .inl ⟨_, _, (Except.ok.inj h).symm, rfl⟩
  | doubleQuote | heredoc =>
    rw [hs] at h
    obtain ⟨_, _, -, same⟩ := exists_ofRead h
    exact .inl ⟨_, _, same, rfl⟩
  | number =>
    rw [hs] at h
    obtain ⟨_, _, read, same⟩ := exists_ofRead h
    exact .inl ⟨_, _, same, isScript_of_isNumber (isNumber_of_number read)⟩
  | blockComment =>
    rw [hs] at h
    dsimp only [blockCommentPiece] at h
    obtain ⟨slash, star⟩ := start_cases.2.2.2 hs
    obtain ⟨body, rfl⟩ : ∃ body, r = '*' :: body := by
      cases r with
      | nil => cases star
      | cons d r => exact ⟨r, by rw [Option.some.inj star]⟩
    split at h
    · rename_i rest closed
      exact .inr (.inl ⟨rest, (Except.ok.inj h).symm, .block slash rfl closed⟩)
    · cases h
  | dollar =>
    rw [hs] at h
    dsimp only [variablePiece] at h
    split at h
    · exact .inl ⟨_, _, (Except.ok.inj h).symm, rfl⟩
    · cases h
  | singleQuote =>
    rw [hs] at h
    dsimp only [singleQuotedPiece] at h
    split at h
    · exact .inl ⟨_, _, (Except.ok.inj h).symm, rfl⟩
    · cases h
  | punct =>
    rw [hs] at h
    dsimp only [punctPiece] at h
    split at h
    · exact .inl ⟨_, _, (Except.ok.inj h).symm, rfl⟩
    · cases h

/-- A piece has one token, none, or the two of a short opening tag. -/
theorem piece_kinds {m : Mode} {c : Char} {r : List Char} {pc : Piece} (h : piece m c r = .ok pc) :
    pc.kinds = [] ∨ (∃ k, pc.kinds = [k]) ∨ pc.kinds = [.openTag, .ident "echo"] := by
  cases m with
  | html =>
    obtain rfl := Except.ok.inj h
    unfold htmlPiece
    split
    · exact .inr (.inl ⟨_, rfl⟩)
    · exact .inr (.inr rfl)
    · exact .inr (.inl ⟨_, rfl⟩)
  | script =>
    rcases scriptPiece_kinds h with ⟨k, rest, rfl, -⟩ | ⟨rest, rfl, -⟩ | ⟨tag, -⟩
    · exact .inr (.inl ⟨k, rfl⟩)
    · exact .inl rfl
    · exact .inr (.inl ⟨_, tag⟩)

/-- A piece that begins with a token of the script is that token. -/
theorem piece_script {m : Mode} {c : Char} {r : List Char} {pc : Piece} {k : TokenKind}
    {ks : List TokenKind} (h : piece m c r = .ok pc) (kinds : pc.kinds = k :: ks)
    (script : isScript k) : m = .script ∧ pc = .token k pc.rest := by
  cases m with
  | html =>
    obtain rfl := Except.ok.inj h
    unfold htmlPiece at kinds
    split at kinds <;> cases kinds <;> cases script
  | script =>
    rcases scriptPiece_kinds h with ⟨k', rest, rfl, -⟩ | ⟨rest, rfl, -⟩ | ⟨tag, -⟩
    · cases kinds
      exact ⟨rfl, rfl⟩
    · cases kinds
    · rw [tag] at kinds
      cases kinds
      cases script

/-! ### Tokens in a row -/

/-- Tokens that stand one behind the other; a short opening tag is in one place with the word it
stands for. -/
structure Laid (ts : List Token) : Prop where
  some : ∀ t ∈ ts, t.span.start < t.span.stop
  stops : ts.Pairwise fun t u ↦ t.span.stop ≤ u.span.stop
  apart : ts.Pairwise fun t u ↦ t.kind ≠ .openTag → t.span.stop ≤ u.span.start

theorem byteLength_cons_pos (c : Char) (cs : List Char) : 0 < Text.byteLength (c :: cs) := by
  have := Char.utf8Size_pos c
  rw [Text.byteLength_cons]
  omega

namespace Lexes

variable {rest : List Char} {m m' : Mode} {p : Place} {cs : List Char} {ts : List Token}

/-- Tokens stand one behind the other, within the text. -/
theorem laid (h : Lexes rest m p cs ts m') :
    Laid ts ∧ ∀ t ∈ ts, p.offset ≤ t.span.start ∧ t.span.stop ≤ (p.past cs).offset := by
  induction h with
  | done => exact ⟨⟨by simp, .nil, .nil⟩, by simp⟩
  | @piece m m₁ m' p c w g cs kinds ts here more ih =>
    obtain ⟨⟨some, stops, apart⟩, within⟩ := ih
    have len := byteLength_cons_pos c w
    have total : (p.past (c :: (w ++ (g ++ cs)))).offset = p.offset + Text.byteLength (c :: w) +
        Text.byteLength g + Text.byteLength cs := by
      rw [show c :: (w ++ (g ++ cs)) = (c :: w) ++ (g ++ cs) from rfl, Place.offset_past]
      simp only [Text.byteLength_append]
      omega
    simp only [Place.offset_past] at within
    -- The tokens of one piece all span the text of that piece.
    have own : ∀ t ∈ kinds.map fun kind ↦
        Token.mk kind (Span.ofPlace p (p.past (c :: w)).offset) (c :: w),
        t.span.start = p.offset ∧ t.span.stop = p.offset + Text.byteLength (c :: w) := by
      intro t ht
      obtain ⟨k, -, rfl⟩ := List.mem_map.1 ht
      exact ⟨rfl, Place.offset_past _ _⟩
    refine ⟨⟨?_, ?_, ?_⟩, ?_⟩
    · intro t ht
      rcases List.mem_append.1 ht with ht | ht
      · have := own t ht
        omega
      · exact some t ht
    · refine List.pairwise_append.2 ⟨?_, stops, ?_⟩
      · refine List.pairwise_of_forall_mem_list fun t ht u hu ↦ ?_
        have := own t ht
        have := own u hu
        omega
      · intro t ht u hu
        have := own t ht
        have := within u hu
        have := some u hu
        omega
    · refine List.pairwise_append.2 ⟨?_, apart, ?_⟩
      · rcases piece_kinds here with hk | ⟨k, hk⟩ | hk <;> dsimp only at hk <;> subst hk
        · exact .nil
        · exact List.pairwise_singleton _ _
        · refine List.pairwise_cons.2 ⟨fun u _ tag ↦ absurd rfl tag, List.pairwise_singleton _ _⟩
      · intro t ht u hu _
        have := own t ht
        have := within u hu
        omega
    · intro t ht
      rw [total]
      rcases List.mem_append.1 ht with ht | ht
      · have := own t ht
        omega
      · have := within t ht
        omega

/-- A text is cut in front of a token of the script. -/
theorem split {as bs : List Token} {t : Token} (h : Lexes rest m p cs (as ++ t :: bs) m')
    (script : isScript t.kind)
    (alone : t.kind = .ident "echo" → ∀ o ∈ as.getLast?, o.kind ≠ .openTag) :
    ∃ x text y, cs = x ++ (text ++ y) ∧ Lexes (text ++ (y ++ rest)) m p x as .script ∧
      Fits t.kind text (y ++ rest) ∧ t = tokenAt (p.past x) t.kind text ∧
      Lexes rest .script (p.past (x ++ text)) y bs m' := by
  generalize hts : as ++ t :: bs = ts at h
  induction h generalizing as with
  | done => simp at hts
  | @piece m m₁ m' p c w g cs kinds ts here more ih =>
    have past : ∀ x, ((p.past (c :: w)).past g).past x = p.past (c :: (w ++ (g ++ x))) := by
      intro x
      rw [← Place.past_append, ← Place.past_append]
      simp
    -- The token is behind this piece.
    have later : ∀ as' : List Token, as' ++ t :: bs = ts →
        (t.kind = .ident "echo" → ∀ o ∈ as'.getLast?, o.kind ≠ .openTag) →
        as = kinds.map (fun k ↦ ⟨k, Span.ofPlace p (p.past (c :: w)).offset, c :: w⟩) ++ as' →
        ∃ x text y, c :: (w ++ (g ++ cs)) = x ++ (text ++ y) ∧
          Lexes (text ++ (y ++ rest)) m p x as .script ∧ Fits t.kind text (y ++ rest) ∧
          t = tokenAt (p.past x) t.kind text ∧
          Lexes rest .script (p.past (x ++ text)) y bs m' := by
      intro as' same alone has
      obtain ⟨x, text, y, rfl, front, fits, token, back⟩ := ih alone same
      refine ⟨c :: (w ++ (g ++ x)), text, y, by simp, ?_, fits, ?_, ?_⟩
      · rw [has]
        exact .piece (by simpa using here) front
      · rw [← past]
        exact token
      · rw [past] at back
        simpa using back
    rcases piece_kinds here with hk | ⟨k, hk⟩ | hk <;> dsimp only at hk <;> subst hk
    · exact later as hts alone (by simp)
    · cases as with
      | nil =>
        obtain ⟨rfl, rfl⟩ := List.cons.inj hts
        obtain ⟨rfl, same⟩ := piece_script here rfl script
        obtain ⟨-, same, -, rfl⟩ := Piece.mk.inj same
        obtain rfl : g = [] := List.append_left_eq_self.1 same
        refine ⟨[], c :: w, cs, by simp, .done, ⟨c, w, rfl, here⟩, rfl, ?_⟩
        · simpa using more
      | cons a as =>
        obtain ⟨rfl, same⟩ := List.cons.inj hts
        refine later as same (fun echo o ho ↦ alone echo o ?_) (by simp)
        cases as with
        | nil => cases ho
        | cons b as => exact ho
    · rcases as with _ | ⟨a, _ | ⟨b, as⟩⟩
      · obtain ⟨rfl, -⟩ := List.cons.inj hts
        cases script
      · obtain ⟨rfl, same⟩ := List.cons.inj hts
        obtain ⟨rfl, -⟩ := List.cons.inj same
        exact absurd rfl (alone rfl _ rfl)
      · obtain ⟨rfl, same⟩ := List.cons.inj hts
        obtain ⟨rfl, same'⟩ := List.cons.inj same
        refine later as same' (fun echo o ho ↦ alone echo o ?_) (by simp)
        cases as with
        | nil => cases ho
        | cons d as => exact ho

end Lexes

/-! ### The same text elsewhere -/

end ConfigScript.Script

namespace ConfigScript

namespace Place

/-- Where a place behind `p` goes when `p` goes to `q`. -/
def moved (p q x : Place) : Place where
  offset := x.offset - p.offset + q.offset
  line := x.line - p.line + q.line
  column := if x.line = p.line then x.column - p.column + q.column else x.column

/-- The place `x` lies behind `p`. -/
structure Behind (p x : Place) : Prop where
  offset : p.offset ≤ x.offset
  line : p.line ≤ x.line
  column : x.line = p.line → p.column ≤ x.column

variable {p q x : Place}

theorem Behind.refl (p : Place) : p.Behind p := ⟨Nat.le_refl _, Nat.le_refl _, fun _ ↦ Nat.le_refl _⟩

theorem moved_self (p q : Place) : p.moved q p = q := by simp [moved]

/-- A place stays behind another one when a character is passed. -/
theorem Behind.after (h : p.Behind x) (c : Char) : p.Behind (x.after c) := by
  obtain ⟨offset, line, column⟩ := h
  unfold Place.after
  split
  · exact ⟨by dsimp only; omega, by dsimp only; omega, fun h ↦ by dsimp only at h; omega⟩
  · exact ⟨by dsimp only; omega, line, fun h ↦ Nat.le_succ_of_le (column h)⟩

/-- A place moves with a character that is passed: lines are counted from the place that is moved, and
columns only on its line. -/
theorem moved_after (h : p.Behind x) (c : Char) :
    (p.moved q x).after c = p.moved q (x.after c) := by
  obtain ⟨offset, line, column⟩ := h
  unfold Place.after
  split
  · simp only [moved, Place.mk.injEq]
    refine ⟨by omega, by omega, ?_⟩
    rw [if_neg (by omega)]
  · simp only [moved, Place.mk.injEq]
    refine ⟨by omega, trivial, ?_⟩
    split
    · have := column ‹_›
      omega
    · rfl

theorem Behind.past (h : p.Behind x) (cs : List Char) : p.Behind (x.past cs) := by
  induction cs generalizing x with
  | nil => exact h
  | cons c cs ih => exact ih (h.after c)

/-- A place moves with a text that is passed. -/
theorem moved_past (h : p.Behind x) (cs : List Char) :
    (p.moved q x).past cs = p.moved q (x.past cs) := by
  induction cs generalizing x with
  | nil => rfl
  | cons c cs ih =>
    show ((p.moved q x).after c).past cs = p.moved q ((x.after c).past cs)
    rw [moved_after h, ih (h.after c)]

end Place

/-- Where a span behind `p` goes when `p` goes to `q`. -/
def Span.moved (p q : Place) (s : Span) : Span where
  start := s.start - p.offset + q.offset
  stop := s.stop - p.offset + q.offset
  line := s.line - p.line + q.line
  column := if s.line = p.line then s.column - p.column + q.column else s.column

/-- Where a token behind `p` goes when `p` goes to `q`. -/
def Token.moved (p q : Place) (t : Token) : Token := { t with span := t.span.moved p q }

namespace Script

/-- A text is cut alike at another place. -/
theorem Lexes.moved {rest : List Char} {m m' : Mode} {p q x : Place} {cs : List Char}
    {ts : List Token} (h : Lexes rest m x cs ts m') (behind : p.Behind x) :
    Lexes rest m (p.moved q x) cs (ts.map (Token.moved p q)) m' := by
  induction h with
  | done => exact .done
  | @piece m m₁ m' x c w g cs kinds ts here more ih =>
    have same : ((p.moved q x).past (c :: w)).past g = p.moved q ((x.past (c :: w)).past g) := by
      rw [Place.moved_past behind, Place.moved_past (behind.past _)]
    have cut := Lexes.piece (p := p.moved q x) here (same ▸ ih ((behind.past _).past _))
    have tokens : (kinds.map fun kind ↦
        Token.mk kind (Span.ofPlace x (x.past (c :: w)).offset) (c :: w)).map (Token.moved p q) =
        kinds.map fun kind ↦ Token.mk kind
          (Span.ofPlace (p.moved q x) ((p.moved q x).past (c :: w)).offset) (c :: w) := by
      rw [List.map_map, Place.moved_past behind]
      rfl
    rw [List.map_append, tokens]
    exact cut

/-! ### Gaps in front of tokens -/

/-- The text begins with a token of the script. -/
structure BeginsWith (k : TokenKind) (z : List Char) : Prop where
  script : isScript k
  cut : ∃ text rest, Fits k text rest ∧ z = text ++ rest

/-- A token of the script begins with no white space and with no closing tag. -/
theorem BeginsWith.start {k : TokenKind} {z : List Char} (h : BeginsWith k z) :
    ∃ c r, z = c :: r ∧ Start.of c r ≠ .blank ∧ Start.of c r ≠ .closeTag := by
  obtain ⟨script, _, rest, ⟨c, r, rfl, here⟩, rfl⟩ := h
  refine ⟨c, r ++ rest, rfl, ?_, ?_⟩ <;> intro hs <;> rw [scriptPiece, hs] at here <;>
    obtain ⟨hk, -⟩ := Piece.mk.inj (Except.ok.inj here) <;> cases hk
  cases script

theorem start_newline (r : List Char) : Start.of '\n' r = .blank := rfl

theorem start_tag {r : List Char} (h : r.head? = some '>') : Start.of '?' r = .closeTag := by
  simp [Start.of, isGap, h]

/-- A comment to the end of the line ends at a line feed or a closing tag. -/
theorem endsLine_of_afterLineComment {w : List Char} {d : Char} {r : List Char}
    (h : afterLineComment w = d :: r) : endsLine d r := by
  induction w with
  | nil => cases h
  | cons c w ih =>
    rw [afterLineComment_cons] at h
    split at h
    · rename_i ends
      obtain ⟨rfl, rfl⟩ := List.cons.inj h
      exact ends
    · exact ih h

/-- A line comment in front of a line feed is a gap with all that is one from there. -/
theorem Gap.line {c : Char} {w cs z : List Char}
    (here : scriptPiece c (w ++ '\n' :: (cs ++ z)) = .ok (.gap ('\n' :: (cs ++ z))))
    (gap : Gap ('\n' :: cs)) : Gap (c :: (w ++ '\n' :: cs)) := by
  intro rest p
  have alike : Alike False ('\n' :: (cs ++ z)) ('\n' :: (cs ++ rest)) := .edge rfl _ _
  have here' := scriptPiece_alike alike (.inr rfl) here
  exact @Lexes.piece rest .script .script .script p c w [] ('\n' :: cs) [] [] here' (gap rest _)

/-- A closing tag is a token. -/
theorem ne_nil_of_closeTag {z cs : List Char} {m' : Mode} {p : Place} {ts : List Token}
    (h : Lexes z .script p ('?' :: cs) ts m') (head : (cs ++ z).head? = some '>') : ts ≠ [] := by
  generalize text : '?' :: cs = whole at h
  cases h with
  | done => cases text
  | @piece _ m₁ _ _ c w g cs' kinds ts here more =>
    obtain ⟨rfl, rfl⟩ := List.cons.inj text
    simp only [List.append_assoc] at head
    have tag : kinds = [.closeTag] := by
      unfold piece scriptPiece at here
      rw [start_tag head] at here
      exact (congrArg Piece.kinds (Except.ok.inj here)).symm
    rw [tag]
    exact List.cons_ne_nil _ _

/-- What has no tokens is a gap in front of a token. -/
theorem gap_of_lexes {z g : List Char} {m m' : Mode} {p : Place} {ts : List Token}
    {k : TokenKind} (h : Lexes z m p g ts m') (begins : BeginsWith k z) (script : m = .script) (none : ts = []) :
    Gap g ∧ m' = .script := by
  induction h with
  | done => exact ⟨.nil, script⟩
  | @piece m m₁ m' p c w g cs kinds ts here more ih =>
    subst script
    obtain ⟨rfl, rfl⟩ : kinds = [] ∧ ts = [] := by simpa using none
    rcases scriptPiece_kinds here with ⟨k, rest, same, -⟩ | ⟨rest, same, skips⟩ | ⟨tag, -⟩
    · cases (Piece.mk.inj same).1
    · obtain ⟨-, text, rfl, rfl⟩ := Piece.mk.inj same
      obtain rfl := List.append_left_eq_self.1 text
      obtain ⟨gap, rfl⟩ := ih rfl rfl
      refine ⟨?_, rfl⟩
      rw [List.nil_append] at here skips ⊢
      generalize whole : w ++ (cs ++ z) = r at skips
      generalize left : cs ++ z = rest at skips
      cases skips with
      | blank blank =>
        obtain rfl := List.append_left_eq_self.1 (whole.trans left.symm)
        exact (Gap.blank blank).append gap
      | line =>
        rw [← whole] at left
        -- The comment does not end at the token, so it ends at a line feed in front of it.
        cases cs with
        | nil =>
          obtain ⟨d, r, rfl, blank, tag⟩ := begins.start
          have ends := endsLine_of_afterLineComment left.symm
          simp only [endsLine, Bool.or_eq_true, Bool.and_eq_true, beq_iff_eq] at ends
          rcases ends with rfl | ⟨rfl, head⟩
          · exact absurd (start_newline r) blank
          · exact absurd (start_tag head) tag
        | cons d cs =>
          have ends := endsLine_of_afterLineComment left.symm
          simp only [endsLine, Bool.or_eq_true, Bool.and_eq_true, beq_iff_eq] at ends
          rcases ends with rfl | ⟨rfl, head⟩
          · exact Gap.line here gap
          · exact absurd rfl (ne_nil_of_closeTag more head)
      | block slash text closed =>
        subst slash left
        rw [text] at whole
        obtain ⟨u, rfl, all⟩ := exists_blockComment closed
        cases w with
        | nil =>
          have short := congrArg List.length whole
          simp only [List.nil_append, List.length_cons, List.length_append] at short
          omega
        | cons d w =>
          obtain ⟨rfl, same⟩ := List.cons.inj whole
          obtain rfl := List.append_cancel_right same
          exact (Gap.blockComment (by simpa using all [])).append gap
    · cases tag

/-! ### The first character of a token -/

/-- An operator is spelled as its symbol. -/
theorem Fits.text_punct {p : Punct} {text rest : List Char} (h : Fits (.punct p) text rest) :
    text = symbol p ∧ punct? (text ++ rest) = some (p, rest) := by
  obtain ⟨c, r, rfl, here⟩ := h
  unfold scriptPiece at here
  cases hs : Start.of c (r ++ rest) with
  | closeTag | blank | lineComment | name | hashBracket | backtick => rw [hs] at here; cases here
  | doubleQuote | heredoc =>
    rw [hs] at here
    obtain ⟨_, _, -, same⟩ := exists_ofRead here
    cases (Piece.mk.inj same).1
  | number =>
    rw [hs] at here
    obtain ⟨k, _, read, same⟩ := exists_ofRead here
    obtain ⟨kind, -⟩ := List.cons.inj (Piece.mk.inj same).1
    have number := isNumber_of_number read
    obtain rfl : k = .punct p := kind.symm
    cases number
  | blockComment =>
    rw [hs] at here
    dsimp only [blockCommentPiece] at here
    split at here <;> cases here
  | dollar =>
    rw [hs] at here
    dsimp only [variablePiece] at here
    split at here <;> cases here
  | singleQuote =>
    rw [hs] at here
    dsimp only [singleQuotedPiece] at here
    split at here <;> cases here
  | punct =>
    rw [hs] at here
    dsimp only [punctPiece] at here
    split at here
    · rename_i q v read
      obtain ⟨kind, -, rfl, -⟩ := Piece.mk.inj (Except.ok.inj here)
      cases kind
      exact ⟨List.append_cancel_right (punct?_eq_some.1 read).1, read⟩
    · cases here

/-- An operator goes on where an operand begins with a character of it. -/
theorem BeginsWith.punct {k : TokenKind} {c : Char} {r : List Char} (h : BeginsWith k (c :: r))
    (hc : c = '=' ∨ c = '>') : ∃ q, k = .punct q ∧ (symbol q).head? = some c := by
  obtain ⟨-, text, rest, fits, whole⟩ := h
  obtain ⟨d, w, rfl, here⟩ := fits
  obtain ⟨rfl, -⟩ := List.cons.inj whole
  have start : Start.of c (w ++ rest) = .punct := by
    rcases hc with rfl | rfl <;>
      simp [Start.of, isGap, isNameStart]
  have piece := here
  rw [scriptPiece, start] at here
  dsimp only [punctPiece] at here
  split at here
  · rename_i q v read
    obtain ⟨kind, -⟩ := Piece.mk.inj (Except.ok.inj here)
    obtain rfl : k = .punct q := (List.cons.inj kind).1.symm
    have text := (Fits.text_punct ⟨c, w, rfl, piece⟩).1
    exact ⟨q, rfl, by rw [← text]; rfl⟩
  · cases here

/-- In front of the end of a value, an operand may end. -/
theorem endsHere_of_lexes {cs : List Char} {p : Place} {t : Token} {ts : List Token} {m : Mode}
    (h : Lexes [] .script p cs (t :: ts) m) (ends : t.kind = .punct .comma ∨
      t.kind = .punct .closeParen ∨ t.kind = .punct .semicolon ∨ t.kind = .closeTag) :
    endsHere cs := by
  generalize start : Mode.script = m₀ at h
  generalize whole : t :: ts = us at h
  cases h with
  | done => cases whole
  | @piece _ m₁ _ _ c w g cs kinds us here more =>
    subst start
    rw [List.append_nil] at here
    have quiet : ∀ {r}, isQuiet c → c ≠ '?' → c ≠ '/' → endsHere (c :: r) := by
      intro r quiet tag slash
      unfold endsHere
      split <;> simp_all
    -- The text begins with the token itself, with what is skipped in front of it, or with a closing tag.
    rcases scriptPiece_kinds here with ⟨k, rest, same, script⟩ | ⟨rest, same, skips⟩ |
      ⟨-, rfl, head⟩
    · obtain ⟨rfl, behind, behind', rfl⟩ := Piece.mk.inj same
      obtain rfl := List.append_left_eq_self.1 (behind.trans behind'.symm)
      obtain ⟨rfl, -⟩ := List.cons.inj whole
      have fits : Fits k (c :: w) cs := ⟨c, w, rfl, here⟩
      have symbols : ∀ q : Punct, k = .punct q → q = .comma ∨ q = .closeParen ∨ q = .semicolon →
          endsHere (c :: (w ++ ([] ++ cs))) := by
        rintro q rfl which
        have text := fits.text_punct.1
        rcases which with rfl | rfl | rfl <;> obtain ⟨rfl, -⟩ := List.cons.inj text <;>
          exact quiet rfl (by decide) (by decide)
      rcases ends with hk | hk | hk | hk
      · exact symbols _ hk (.inl rfl)
      · exact symbols _ hk (.inr (.inl rfl))
      · exact symbols _ hk (.inr (.inr rfl))
      · rw [show k = .closeTag from hk] at script
        cases script
    · generalize w ++ (g ++ cs) = r at skips
      cases skips with
      | blank blank =>
        refine quiet (by simp [isQuiet, blank]) ?_ ?_ <;> rintro rfl <;> cases blank
      | line start =>
        rcases start with rfl | ⟨rfl, head⟩
        · exact quiet rfl (by decide) (by decide)
        · simp [endsHere, head]
      | block slash text =>
        subst slash text
        rfl
    · simp [endsHere, head]

end Script

end ConfigScript
