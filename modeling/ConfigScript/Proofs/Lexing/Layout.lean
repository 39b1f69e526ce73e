import ConfigScript.Proofs.Lexing.Row
import ConfigScript.Proofs.Parsing.Yields
import Mathlib.Data.List.Induction

/-!
# What stands between tokens

The tokens of a source and the text around them make up the source. Every token stands in it: its span
says where its text begins and ends, and on which line and column (`Token.StandsIn`). Tokens stand one
behind the other; the tag `<?=` alone is in one place with the word that it stands for
(`Token.Precedes`). Around them is nothing but layout, that is white space and comments (`Script.Spaced`,
`Script.Layout`).

The last of these depends on what follows: a line comment is over only at the end of its line or of the
script. So layout is said to be layout in front of a text, and layouts compose if the first one is taken
in front of the second (`Layout.append`).
-/

namespace ConfigScript

/-- A place in a text that begins at the start: so many bytes, line feeds, and characters of the last
line are in front of it. -/
theorem Place.start_past (cs : List Char) :
    Place.start.past cs = ⟨Text.byteLength cs, cs.count '\n' + 1,
      (cs.reverse.takeWhile (· != '\n')).length + 1⟩ := by
  induction cs using List.reverseRecOn with
  | nil => rfl
  | append_singleton cs c ih =>
    rw [Place.past_append, ih]
    show Place.after _ c = _
    unfold Place.after
    by_cases feed : c = '\n'
    · subst feed
      simp
    · simp [feed]

/-- The token stands in the source: its text is a part of it that is not empty, and its span says from
which byte up to which that part reaches, in which line it begins, and at which character of it. -/
def Token.StandsIn (source : List Char) (t : Token) : Prop :=
  ∃ front back, source = front ++ (t.text ++ back) ∧ t.text ≠ [] ∧
    t.span = ⟨Text.byteLength front, Text.byteLength (front ++ t.text), front.count '\n' + 1,
      (front.reverse.takeWhile (· != '\n')).length + 1⟩

/-- The token `u` stands behind `t`, or it is the word that the tag `t` stands for. -/
def Token.Precedes (t u : Token) : Prop :=
  t.span.stop ≤ u.span.start ∨
    t.kind = .openTag ∧ t.text = "<?=".toList ∧ u = { t with kind := .ident "echo" }

namespace Script

/-! ### Layout -/

/-- A line comment ends in front of the text: there is a line feed, a closing tag or nothing. -/
def EndsComment (cs : List Char) : Prop :=
  cs = [] ∨ cs.head? = some '\n' ∨ ['?', '>'] <+: cs

/-- The beginning of a line comment, with the text behind it. -/
inductive OpensLine : List Char → List Char → Prop
  | hash {body : List Char} (noAttribute : body.head? ≠ some '[') : OpensLine ['#'] body
  | slashes {body : List Char} : OpensLine ['/', '/'] body

/-- White space and comments in front of `rest`. A line comment reaches up to the end of the line or of
the script, a block comment up to the first mark that closes it. -/
inductive Layout (rest : List Char) : List Char → Prop
  | nil : Layout rest []
  | blank {c : Char} {cs : List Char} (space : isGap c) (more : Layout rest cs) : Layout rest (c :: cs)
  | line {mark body cs : List Char} (opens : OpensLine mark body) (noFeed : '\n' ∉ body)
      (noTag : ¬['?', '>'] <:+: body) (ends : EndsComment (cs ++ rest)) (more : Layout rest cs) :
      Layout rest (mark ++ (body ++ cs))
  | block {body cs : List Char} (unclosed : ¬['*', '/'] <:+: body ++ ['*']) (more : Layout rest cs) :
      Layout rest ('/' :: '*' :: (body ++ '*' :: '/' :: cs))

/-- What stands in the source from byte `n` on, in front of the tokens, between them and behind them,
is layout. -/
def Spaced (source : List Char) : Nat → List Token → Prop
  | n, [] => Layout [] (Text.dropBytes n source)
  | n, t :: ts => Layout (Text.dropBytes t.span.start source) (Text.sliceBytes n t.span.start source) ∧
      Spaced source t.span.stop ts

/-- Layout in front of layout is layout, if the first part is layout in front of the second one. -/
theorem Layout.append {rest as bs : List Char} (first : Layout (bs ++ rest) as)
    (second : Layout rest bs) : Layout rest (as ++ bs) := by
  induction first with
  | nil => exact second
  | blank space _ ih => exact .blank space ih
  | @line mark body cs opens noFeed noTag ends _ ih =>
    rw [List.append_assoc, List.append_assoc]
    exact .line opens noFeed noTag (by rwa [List.append_assoc]) ih
  | @block body cs unclosed _ ih =>
    have shape : '/' :: '*' :: (body ++ '*' :: '/' :: cs) ++ bs =
      '/' :: '*' :: (body ++ '*' :: '/' :: (cs ++ bs)) := by simp
    rw [shape]
    exact .block unclosed ih

/-! ### Comments -/

/-- Two characters in a row that stand at the front or not at all stand nowhere if they stand not at the
front. -/
theorem not_infix_cons {a b c : Char} {cs : List Char} (front : c = a → cs.head? ≠ some b)
    (inside : ¬[a, b] <:+: cs) : ¬[a, b] <:+: c :: cs := by
  rw [List.infix_cons_iff, not_or]
  refine ⟨fun h ↦ ?_, inside⟩
  obtain ⟨same, more⟩ := List.cons_prefix_cons.1 h
  obtain ⟨ds, rfl⟩ := more
  exact front same.symm rfl

/-- A line comment stops at the first line feed or closing tag. -/
theorem exists_afterLineComment (cs : List Char) : ∃ body, cs = body ++ afterLineComment cs ∧
    '\n' ∉ body ∧ ¬['?', '>'] <:+: body ∧ EndsComment (afterLineComment cs) := by
  fun_induction afterLineComment cs with
  | case1 => exact ⟨[], rfl, by simp, by simp, .inl rfl⟩
  | case2 r => exact ⟨[], rfl, by simp, by simp, .inr (.inl rfl)⟩
  | case3 r => exact ⟨[], rfl, by simp, by simp, .inr (.inr ⟨r, rfl⟩)⟩
  | case4 c r noFeed noTag ih =>
    obtain ⟨body, same, feed, tag, ends⟩ := ih
    refine ⟨c :: body, congrArg (c :: ·) same, ?_, not_infix_cons (fun mark next ↦ ?_) tag, ends⟩
    · rw [List.mem_cons, not_or]
      exact ⟨fun is ↦ noFeed is.symm, feed⟩
    -- With a tag at its beginning the comment would have ended there.
    · obtain ⟨ds, rfl⟩ := List.head?_eq_some_iff.1 next
      exact noTag _ mark (same.trans (List.cons_append ..))

/-- A block comment stops behind the first mark that closes it. -/
theorem exists_afterBlockComment {cs rest : List Char} (h : afterBlockComment? cs = some rest) :
    ∃ body, cs = body ++ '*' :: '/' :: rest ∧ ¬['*', '/'] <:+: body ++ ['*'] := by
  fun_induction afterBlockComment? cs with
  | case1 => cases h
  | case2 r =>
    obtain rfl := Option.some.inj h
    exact ⟨[], rfl, by decide⟩
  | case3 c r unclosed ih =>
    obtain ⟨body, same, inside⟩ := ih h
    refine ⟨c :: body, congrArg (c :: ·) same, not_infix_cons (fun star next ↦ ?_) inside⟩
    cases body with
    | nil => cases next
    | cons d body =>
      obtain rfl := Option.some.inj next
      exact unclosed _ star (same.trans (List.cons_append ..))

/-- A text does not end a comment if it begins with neither a line break nor a question mark. -/
theorem not_endsComment_cons {c : Char} {cs : List Char} (feed : c ≠ '\n') (mark : c ≠ '?') :
    ¬EndsComment (c :: cs) := by
  rintro (h | h | ⟨ds, h⟩)
  · cases h
  · exact feed (Option.some.inj h)
  · exact mark (List.cons.inj h).1.symm

/-- What is skipped in a script is layout. -/
theorem layout_of_skips {c : Char} {w rest r : List Char} (skips : Skips c r rest)
    (same : r = w ++ rest) (noAttribute : c = '#' → r.head? ≠ some '[') : Layout rest (c :: w) := by
  cases skips with
  | blank space =>
    obtain rfl : w = [] := List.append_left_eq_self.1 same.symm
    exact .blank space .nil
  | line start =>
    obtain ⟨body, split, feed, tag, ends⟩ := exists_afterLineComment r
    obtain rfl : w = body := List.append_cancel_right (same.symm.trans split)
    rcases start with rfl | ⟨rfl, slash⟩
    · have opens : OpensLine ['#'] w := .hash fun first ↦ noAttribute rfl <| by
        rw [same, List.head?_append, first, Option.some_or]
      have line : Layout (afterLineComment r) (['#'] ++ (w ++ [])) := .line opens feed tag ends .nil
      rwa [List.append_nil] at line
    · cases w with
      | nil =>
        -- The second slash does not end a comment, so it is not left over.
        obtain ⟨ds, text⟩ := List.head?_eq_some_iff.1 slash
        rw [← show r = afterLineComment r from split, text] at ends
        exact (not_endsComment_cons (by decide) (by decide) ends).elim
      | cons d w =>
        rw [split, List.cons_append] at slash
        obtain rfl := Option.some.inj slash
        rw [List.mem_cons, not_or] at feed
        have line : Layout (afterLineComment r) (['/', '/'] ++ (w ++ [])) := .line .slashes feed.2
          (fun inside ↦ tag (inside.trans (List.suffix_cons _ w).isInfix)) ends .nil
        rwa [List.append_nil] at line
  | @block body _ slash text closed =>
    obtain ⟨inner, split, inside⟩ := exists_afterBlockComment closed
    obtain rfl : w = '*' :: (inner ++ ['*', '/']) := by
      refine List.append_cancel_right (same.symm.trans ?_)
      rw [text, split]
      simp
    rw [slash]
    exact .block inside .nil

/-! ### Pieces -/

/-- What a tag takes with it is white space. -/
theorem TakesGap.layout {f : List Char → List Char} {before behind : Char → Bool}
    (takes : TakesGap f before behind) (space : ∀ c, before c ∨ behind c → isGap c)
    {g rest : List Char} (h : f (g ++ rest) = rest) : Layout rest g := by
  match g with
  | [] => exact .nil
  | c :: g =>
    have single : isGap c → g ++ rest = rest → Layout rest (c :: g) := fun blank same ↦ by
      obtain rfl : g = [] := List.append_left_eq_self.1 same
      exact .blank blank .nil
    rw [List.cons_append, takes.cons] at h
    split at h
    · rename_i there
      exact single (space c (.inl there)) h
    split at h
    · rename_i there
      obtain ⟨rfl, feed⟩ := there
      cases g with
      | nil =>
        obtain ⟨ds, same⟩ := List.head?_eq_some_iff.1 feed
        rw [List.nil_append] at same h
        rw [same] at h
        exact absurd h.symm (List.cons_ne_self _ ds)
      | cons d g =>
        obtain rfl := Option.some.inj feed
        obtain rfl : g = [] := List.append_left_eq_self.1 h
        exact .blank rfl (.blank rfl .nil)
    split at h
    · rename_i there
      exact single (space c (.inr there)) h
    · have long := congrArg List.length h
      rw [List.length_cons, List.length_append] at long
      omega

/-- What opens script with an equals sign is the short tag. -/
theorem exists_of_opening_echo {cs : List Char} (h : opening? cs = some .echo) :
    ∃ r, cs = '<' :: '?' :: '=' :: r := by
  unfold opening? at h
  split at h
  · exact ⟨_, rfl⟩
  · split at h <;> cases h
  · cases h

/-- The text of a piece without tokens is layout, and so is the gap behind any other piece. Only the
short opening tag has two tokens. -/
theorem piece_layout {m m₁ : Mode} {c : Char} {w g rest : List Char} {kinds : List TokenKind}
    (here : piece m c (w ++ (g ++ rest)) = .ok ⟨kinds, g ++ rest, rest, m₁⟩) :
    Layout rest g ∧ (kinds = [] ∧ g = [] ∧ Layout rest (c :: w) ∨ (∃ k, kinds = [k]) ∨
      kinds = [.openTag, .ident "echo"] ∧ c :: w = "<?=".toList) := by
  have noGap : g ++ rest = rest → g = [] := List.append_left_eq_self.1
  cases m with
  | html =>
    have same := Except.ok.inj here
    unfold htmlPiece at same
    split at same <;> obtain ⟨rfl, text, gap, rfl⟩ := Piece.mk.inj same
    · obtain rfl := noGap (text.symm.trans gap)
      exact ⟨.nil, .inr (.inl ⟨_, rfl⟩)⟩
    · rename_i echo
      obtain rfl := noGap (text.symm.trans gap)
      obtain ⟨r, whole⟩ := exists_of_opening_echo echo
      obtain ⟨rfl, behind⟩ := List.cons.inj whole
      rw [behind] at text
      obtain rfl : w = ['?', '='] :=
        List.append_cancel_right (behind.trans (congrArg ('?' :: '=' :: ·) text))
      exact ⟨.nil, .inr (.inr ⟨rfl, rfl⟩)⟩
    · rw [text] at gap
      refine ⟨takesGap_afterTagGap.layout (fun d taken ↦ ?_) gap, .inr (.inl ⟨_, rfl⟩)⟩
      rcases taken with taken | taken
      · cases taken
      · exact (Bool.and_eq_true_iff.1 taken).1
  | script =>
    rcases scriptPiece_cases here with ⟨-, text⟩ | ⟨-, same⟩
    · obtain rfl := noGap text
      refine ⟨.nil, ?_⟩
      rcases scriptPiece_kinds here with ⟨k, _, same, -⟩ | ⟨_, same, skips⟩ | ⟨tag, -⟩
      · exact .inr (.inl ⟨k, (Piece.mk.inj same).1⟩)
      · obtain ⟨kinds, rfl, -⟩ := Piece.mk.inj same
        -- What begins with `#[` is refused and not skipped.
        refine .inl ⟨kinds, rfl, layout_of_skips skips rfl fun hash bracket ↦ ?_⟩
        obtain ⟨ds, text⟩ := List.head?_eq_some_iff.1 bracket
        rw [hash, show w ++ ([] ++ rest) = '[' :: ds from text] at here
        cases here
      · exact .inr (.inl ⟨_, tag⟩)
    · obtain ⟨kinds, text, gap, -⟩ := Piece.mk.inj same
      rw [← text] at gap
      refine ⟨takesGap_afterTagBreak.layout (fun d taken ↦ ?_) gap.symm, .inr (.inl ⟨_, kinds⟩)⟩
      rcases taken with taken | taken
      · rw [beq_iff_eq.1 taken]
        rfl
      · cases taken

/-! ### Tokens -/

section Lexes

variable {m m' : Mode} {p : Place} {cs : List Char} {ts : List Token}

/-- Every token has its text in the source, and the place where that begins. -/
theorem Lexes.exists_text {rest : List Char} (h : Lexes rest m p cs ts m') : ∀ t ∈ ts, ∃ front back,
    cs = front ++ (t.text ++ back) ∧ t.text ≠ [] ∧
      t.span = Span.ofPlace (p.past front) (p.past (front ++ t.text)).offset := by
  induction h with
  | done => simp
  | @piece m m₁ m' p c w g cs kinds ts here more ih =>
    intro t ht
    rcases List.mem_append.1 ht with ht | ht
    · obtain ⟨k, -, rfl⟩ := List.mem_map.1 ht
      exact ⟨[], g ++ cs, rfl, List.cons_ne_nil c w, rfl⟩
    · obtain ⟨front, back, rfl, some, span⟩ := ih t ht
      refine ⟨(c :: w) ++ (g ++ front), back, by simp, some, ?_⟩
      rw [span, List.append_assoc, List.append_assoc]
      simp only [Place.past_append]

/-- A token stands behind those in front of it. -/
theorem Lexes.precedes {rest : List Char} (h : Lexes rest m p cs ts m') :
    ts.Pairwise Token.Precedes := by
  induction h with
  | done => exact .nil
  | @piece m m₁ m' p c w g cs kinds ts here more ih =>
    refine List.pairwise_append.2 ⟨?_, ih, fun t ht u hu ↦ .inl ?_⟩
    · rcases (piece_layout here).2 with ⟨rfl, -⟩ | ⟨k, rfl⟩ | ⟨rfl, text⟩
      · exact .nil
      · exact List.pairwise_singleton _ _
      · refine List.pairwise_cons.2 ⟨fun u hu ↦ .inr ⟨rfl, text, ?_⟩, List.pairwise_singleton _ _⟩
        exact List.mem_singleton.1 hu
    · obtain ⟨k, -, rfl⟩ := List.mem_map.1 ht
      have behind := (more.laid.2 u hu).1
      rw [Place.offset_past] at behind
      exact Nat.le_trans (Nat.le_add_right _ _) behind

/-- Layout in front of a token, and in front of what follows it. -/
theorem spaced_cons {source front gap behind : List Char} {t : Token}
    (whole : source = front ++ (gap ++ behind)) (layout : Layout behind gap)
    (start : t.span.start = Text.byteLength (front ++ gap)) (more : Spaced source t.span.stop ts) :
    Spaced source (Text.byteLength front) (t :: ts) := by
  rw [← List.append_assoc] at whole
  refine ⟨?_, more⟩
  rw [start, whole, Text.dropBytes_byteLength_append, Text.byteLength_append,
    Text.sliceBytes_append]
  exact layout

/-- Around the tokens of a source there is layout. The text in front of `cs` ends with the layout behind
the last token. -/
theorem Lexes.spaced (h : Lexes [] m p cs ts m') {source front gap : List Char}
    (whole : source = front ++ (gap ++ cs)) (layout : Layout cs gap)
    (place : p.offset = Text.byteLength (front ++ gap)) :
    Spaced source (Text.byteLength front) ts := by
  induction h generalizing front gap with
  | done =>
    rw [Spaced, whole, Text.dropBytes_byteLength_append, List.append_nil]
    exact layout
  | @piece m m₁ m' p c w g cs kinds ts here more ih =>
    obtain ⟨behind, tokens⟩ := piece_layout here
    rw [List.append_nil] at behind tokens
    have stop : (p.past (c :: w)).offset = Text.byteLength (front ++ (gap ++ (c :: w))) := by
      rw [Place.offset_past, place, ← List.append_assoc, Text.byteLength_append _ (c :: w)]
    have next : ((p.past (c :: w)).past g).offset =
        Text.byteLength (front ++ (gap ++ (c :: w)) ++ g) := by
      rw [Place.offset_past, stop, ← Text.byteLength_append]
    have later : Spaced source (p.past (c :: w)).offset ts := by
      rw [stop]
      exact ih (by rw [whole]; simp) behind next
    rcases tokens with ⟨rfl, rfl, blank⟩ | ⟨k, rfl⟩ | ⟨rfl, -⟩
    -- A piece without tokens goes to the gap in front of the next one.
    · have gap' : Layout cs (gap ++ (c :: w)) := .append layout blank
      refine ih (by rw [whole]; simp) gap' ?_
      rw [next, List.append_nil]
    · exact spaced_cons whole layout place later
    -- The second token of a tag begins in front of its end, so between the two there is nothing.
    · refine spaced_cons whole layout place ⟨?_, later⟩
      have same : p.offset - (p.past (c :: w)).offset = 0 := by
        rw [Place.offset_past]
        omega
      have none : ∀ cs, Text.takeBytes 0 cs = [] := Text.takeBytes_byteLength_append []
      show Layout _ (Text.takeBytes (p.offset - (p.past (c :: w)).offset) _)
      rw [same, none]
      exact .nil

end Lexes

/-- The tokens of a source stand in it, one behind the other, and all around them is layout. -/
theorem tokenize_tiles {source : List Char} {ts : List Token} (h : tokenize source = .ok ts) :
    (∀ t ∈ ts, t.StandsIn source) ∧ ts.Pairwise Token.Precedes ∧ Spaced source 0 ts := by
  obtain ⟨m, lexes⟩ := exists_lexes h
  have spaced : Spaced source (Text.byteLength []) ts :=
    lexes.spaced (show source = [] ++ ([] ++ source) from rfl) .nil rfl
  refine ⟨fun t ht ↦ ?_, lexes.precedes, spaced⟩
  obtain ⟨front, back, whole, some, span⟩ := lexes.exists_text t ht
  refine ⟨front, back, whole, some, ?_⟩
  rw [span, Place.start_past, Place.start_past]
  rfl

/-- Text, tags with and without a gap, comments of every kind, a heredoc with an indented end, and
characters of several bytes. -/
theorem tokenize_tiles_heredoc : ∃ source ts,
    source = "é<?php\n /* ** */ $é=<<<A\n\tb\n\tA;# x ?>\n<?= 1 //".toList ∧ tokenize source = .ok ts ∧
      ts.map (fun t ↦ (t.span.start, t.span.stop, t.span.line, t.span.column)) =
        [(0, 2, 1, 1), (2, 7, 1, 2), (18, 21, 2, 11), (21, 22, 2, 13), (22, 32, 2, 14), (32, 33, 4, 3),
          (37, 39, 4, 8), (40, 43, 5, 1), (40, 43, 5, 1), (44, 45, 5, 5)] ∧
      (∀ t ∈ ts, t.StandsIn source) ∧ ts.Pairwise Token.Precedes ∧ Spaced source 0 ts := by
  obtain ⟨ts, cut, places⟩ := exists_of_any (p := fun ts ↦ ts.map (fun t ↦
    (t.span.start, t.span.stop, t.span.line, t.span.column)) ==
      [(0, 2, 1, 1), (2, 7, 1, 2), (18, 21, 2, 11), (21, 22, 2, 13), (22, 32, 2, 14), (32, 33, 4, 3),
        (37, 39, 4, 8), (40, 43, 5, 1), (40, 43, 5, 1), (44, 45, 5, 5)])
    (show (tokenize "é<?php\n /* ** */ $é=<<<A\n\tb\n\tA;# x ?>\n<?= 1 //".toList).toOption.any _
      by decide +kernel)
  exact ⟨_, ts, rfl, cut, beq_iff_eq.1 places, tokenize_tiles cut⟩

end Script

end ConfigScript
