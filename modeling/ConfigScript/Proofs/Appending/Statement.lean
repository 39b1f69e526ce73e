import ConfigScript.Proofs.Appending.Simple

/-!
# Statements with more tokens behind

Statements that close all their brackets and end with a semicolon are parsed as before if more tokens follow
(`statements_append`), as long as these do not begin with a word that goes on with a conditional. For
whatever is read in the attempt to understand a statement by its grammar, the end of the tokens is only
reached behind the semicolon, where no block is open any more.
-/

namespace ConfigScript.Script

/-- No conditional goes on with the tokens. -/
def EndsBranch (ts : List Token) : Prop :=
  ∀ t ∈ ts.head?, t.isKeyword "else" = false ∧ t.isKeyword "elseif" = false

/-- Where a branch ends, no alternative follows. -/
theorem EndsBranch.keyword? {ts : List Token} (h : EndsBranch ts) (s : Span) :
    (Cursor.mk s ts).keyword? "else" = none ∧ (Cursor.mk s ts).keyword? "elseif" = none := by
  cases ts with
  | nil => exact ⟨rfl, rfl⟩
  | cons t ts =>
    obtain ⟨first, second⟩ := h t rfl
    refine ⟨Cursor.keyword?_eq_none ?_, Cursor.keyword?_eq_none ?_⟩
    · simpa [Token.isKeyword] using first
    · simpa [Token.isKeyword] using second

theorem Closing.behind_brace {c d : Cursor} {t : Token} {k : Nat} (h : Closing k c.rest)
    (took : Took c [t] d) (kind : t.kind = .punct .openBrace) : Closing (k + 1) d.rest := by
  rw [took.rest] at h
  exact h.of_opens (by simp [opensBracket, Token.isPunct, kind])

/-- With fewer than `n` tokens ahead, the parser of statements does not see what follows the last semicolon. -/
structure UnaffectedBelow (more : List Token) (n : Nat) : Prop where
  statement : ∀ {c : Cursor} {k : Nat}, c.Inside → Closing k c.rest → c.size < n →
    Unaffected more Cursor.UpTo (statement c) (statement (c.append more))
  branch : ∀ {c : Cursor} {k : Nat}, c.Inside → Closing k c.rest → c.size < n →
    Unaffected more Cursor.UpTo (branch c) (branch (c.append more))
  alternatives : ∀ {c : Cursor} {k : Nat} {stop : Span}, c.UpTo → Closing k c.rest → c.size < n →
    Unaffected more Cursor.UpTo (alternatives stop c) (alternatives stop (c.append more))
  body : ∀ {c : Cursor} {k : Nat}, c.Inside → Closing k c.rest → c.size < n →
    Unaffected more Cursor.UpTo (body c) (body (c.append more))
  block : ∀ {c : Cursor} {k : Nat}, c.UpTo → Closing (k + 1) c.rest → c.size < n →
    Unaffected more Cursor.UpTo (block c) (block (c.append more))

namespace UnaffectedBelow

variable {more : List Token} {c : Cursor} {k : Nat}

/-- What holds below a bound holds below each smaller one. -/
theorem mono {m n : Nat} (h : UnaffectedBelow more n) (le : m ≤ n) : UnaffectedBelow more m where
  statement inside closing lt := h.statement inside closing (Nat.lt_of_lt_of_le lt le)
  branch inside closing lt := h.branch inside closing (Nat.lt_of_lt_of_le lt le)
  alternatives upTo closing lt := h.alternatives upTo closing (Nat.lt_of_lt_of_le lt le)
  body inside closing lt := h.body inside closing (Nat.lt_of_lt_of_le lt le)
  block upTo closing lt := h.block upTo closing (Nat.lt_of_lt_of_le lt le)

/-- A branch is unaffected. -/
theorem of_branch (ih : UnaffectedBelow more c.size) (h : c.Inside) (closing : Closing k c.rest) :
    Unaffected more Cursor.UpTo (Script.branch c) (Script.branch (c.append more)) := by
  rw [Script.branch, Script.branch]
  refine (expect_unaffected h more (p := .openParen) (by decide)).bind fun _ d l _ read inside ↦ ?_
  refine (expression_unaffected inside more 0).bind fun e f m _ condition inside ↦ ?_
  refine (expect_unaffected inside more (p := .closeParen) (by decide)).bind
    fun _ g j _ read' inside ↦ ?_
  dsimp only
  rw [inside.atPunct_append]
  split
  · exact .errors (Twinning.Settled.exists_unsupported _ _) (Twinning.Settled.exists_unsupported _ _)
  have lt : g.size < c.size := Nat.lt_trans j (Nat.lt_trans m l)
  have group : ClosesUpTo 0 c g := by
    obtain ⟨_, took, opens, -⟩ := took_of_expect read
    obtain ⟨_, took', closes, -⟩ := took_of_expect read'
    exact (Balances.group took (opensBracket_of_kind (.inl opens)) (balances_of_expression condition)
      took' (closesBracket_of_kind (.inl closes))).closes
  refine (ih.body inside (group.closing closing) lt).bind fun a _ _ _ _ upTo ↦ ?_
  exact .ok rfl rfl upTo

/-- A branch and what follows it. -/
theorem of_continued (ih : UnaffectedBelow more c.size) {d : Cursor} (inside : d.Inside)
    (closing : Closing k d.rest) (lt : d.size < c.size) {α : Type} {n n' : Nat}
    {f : (b : Read (Branch × Span) d.size) → Peeked Alternatives b.next.size → Parse (Read α n)}
    {f' : (b : Read (Branch × Span) (d.append more).size) → Peeked Alternatives b.next.size →
      Parse (Read α n')}
    (same : ∀ b e l l' a g m m', g.UpTo →
      Unaffected more Cursor.UpTo (f ⟨b, e, l⟩ ⟨a, g, m⟩) (f' ⟨b, e.append more, l'⟩ ⟨a, g.append more, m'⟩)) :
    Unaffected more Cursor.UpTo
      (Script.branch d >>= fun b ↦ Script.alternatives b.value.2 b.next >>= f b)
      (Script.branch (d.append more) >>= fun b ↦ Script.alternatives b.value.2 b.next >>= f' b) := by
  refine (ih.branch inside closing lt).bind fun b e l l' one upTo ↦ ?_
  have behind := (closes_of_branch one).closing closing
  refine (ih.alternatives upTo behind (Nat.lt_trans l lt)).bind fun a g m m' _ upTo ↦ ?_
  exact same b e l l' a g m m' upTo

/-- The alternatives of a conditional are unaffected: where no tokens are left, those behind do not begin
with `else` or `elseif`. -/
theorem of_alternatives (other : EndsBranch more) (ih : UnaffectedBelow more c.size) (h : c.UpTo)
    (closing : Closing k c.rest) (stop : Span) :
    Unaffected more Cursor.UpTo (Script.alternatives stop c)
      (Script.alternatives stop (c.append more)) := by
  rw [Script.alternatives, Script.alternatives]
  rcases h with none | inside
  · obtain ⟨s, ts⟩ := c
    obtain rfl : ts = [] := none
    have place : (Cursor.mk s []).append more = ⟨s, more⟩ := rfl
    obtain ⟨noElse, noElseif⟩ := other.keyword? s
    rw [place, noElseif, noElse]
    exact .ok rfl rfl (.inl rfl)
  rcases keyword?_unaffected inside more "elseif" with ⟨none, none'⟩ | ⟨t, d, l, _, read, read', inside'⟩
  · rw [none, none']
    dsimp only
    rcases keyword?_unaffected inside more "else" with
      ⟨none, none'⟩ | ⟨t, d, l, _, read, read', inside'⟩
    · rw [none, none']
      exact .ok rfl rfl inside.upTo
    rw [read, read']
    dsimp only
    obtain ⟨took, n, kind⟩ := took_of_keyword read
    have closing := (ClosesAll.of_word took kind).closing closing
    rcases keyword?_unaffected inside' more "if" with
      ⟨none, none'⟩ | ⟨u, e, m, _, again, again', inside''⟩
    · rw [none, none']
      refine (ih.body inside' closing l).bind fun a _ _ _ _ upTo ↦ ?_
      exact .ok rfl rfl upTo
    · rw [again, again']
      obtain ⟨took, n, kind⟩ := took_of_keyword again
      have closing := (ClosesAll.of_word took kind).closing closing
      exact ih.of_continued inside'' closing (Nat.lt_trans m l) fun _ _ _ _ _ _ _ _ upTo ↦
        .ok rfl rfl upTo
  · rw [read, read']
    obtain ⟨took, n, kind⟩ := took_of_keyword read
    have closing := (ClosesAll.of_word took kind).closing closing
    exact ih.of_continued inside' closing l fun _ _ _ _ _ _ _ _ upTo ↦ .ok rfl rfl upTo

/-- A statement with a grammar is unaffected. -/
theorem of_structured (ih : UnaffectedBelow more c.size) (h : c.Inside) (closing : Closing k c.rest) :
    Unaffected more Cursor.UpTo (structured c) (structured (c.append more)) := by
  have expression := expressionStatement_unaffected h more
  rw [structured, structured]
  refine (advance_unaffected h more).bind fun t d l _ read _ ↦ ?_
  dsimp only
  split
  · rename_i name kind
    have took := took_of_advance read
    have inside := h.behind_token took (by simp [kind])
    split
    · have closing := (ClosesAll.of_word took kind).closing closing
      exact ih.of_continued inside closing l fun _ _ _ _ _ _ _ _ upTo ↦ .ok rfl rfl upTo
    · rcases wordStatement?_unaffected inside more (String.ofList (lower name.toList)) t with
        ⟨none, none'⟩ | ⟨x, x', word, word', same⟩
      · rw [none, none']
        exact expression
      · rw [word, word']
        refine same.bind fun a _ _ _ _ upTo ↦ ?_
        exact .ok rfl rfl upTo
  · rcases assignment?_unaffected h more with
      ⟨⟨e, fails⟩, e', fails'⟩ | ⟨none, none'⟩ | ⟨r, r', found, found', same⟩
    · rw [fails, fails']
      exact .error
    · rw [none, none']
      exact expression
    · rw [found, found']
      exact same
  · exact expression

/-- A statement is unaffected. -/
theorem of_statement (ih : UnaffectedBelow more c.size) (h : c.Inside) (closing : Closing k c.rest) :
    Unaffected more Cursor.UpTo (Script.statement c) (Script.statement (c.append more)) := by
  have grammar := of_structured ih h closing
  rw [Script.statement, Script.statement]
  refine (advance_unaffected h more).bind fun t d l _ read upTo ↦ ?_
  have took := took_of_advance read
  dsimp only
  split
  · exact .ok rfl rfl upTo
  · exact .ok rfl rfl upTo
  · exact .ok rfl rfl upTo
  · exact .ok rfl rfl upTo
  · rename_i kind
    refine (ih.block upTo (closing.behind_brace took kind) l).bind fun a _ _ _ _ upTo ↦ ?_
    exact .ok rfl rfl upTo
  · exact .error
  · rename_i semicolon _ _ _
    rcases grammar.cases with ⟨e, e', fails, fails'⟩ | ⟨s, e, _, _, found, found', upTo⟩
    · rw [fails, fails']
      have other : ∀ u ∈ c.rest.head?, u.kind ≠ .punct .semicolon := by
        intro u hu
        rw [head?_of_took took] at hu
        exact Option.some.inj hu ▸ semicolon
      refine (opaqueStatement_unaffected h closing other more).bind fun a _ _ _ _ upTo ↦ ?_
      exact .ok rfl rfl upTo
    · rw [found, found']
      exact .ok rfl rfl upTo

/-- A body is unaffected. -/
theorem of_body (ih : UnaffectedBelow more c.size) (h : c.Inside) (closing : Closing k c.rest) :
    Unaffected more Cursor.UpTo (Script.body c) (Script.body (c.append more)) := by
  have one := of_statement ih h closing
  rw [Script.body, Script.body]
  rcases punct?_unaffected h more (p := .openBrace) (by decide) with
    ⟨none, none'⟩ | ⟨t, d, l, _, read, read', inside⟩
  · rw [none, none']
    dsimp only
    obtain ⟨s, t, ts, rfl⟩ := h.exists_cons
    refine one.bind fun a _ _ _ _ upTo ↦ ?_
    exact .ok rfl rfl upTo
  · rw [read, read']
    obtain ⟨took, kind⟩ := took_of_punct read
    refine (ih.block inside.upTo (closing.behind_brace took kind) l).bind fun a _ _ _ _ upTo ↦ ?_
    exact .ok rfl rfl upTo

/-- A block is unaffected, as it has a brace to read. -/
theorem of_block (ih : UnaffectedBelow more c.size) (h : c.UpTo) (closing : Closing (k + 1) c.rest) :
    Unaffected more Cursor.UpTo (Script.block c) (Script.block (c.append more)) := by
  have inside := h.inside_of_closing closing
  rw [Script.block, Script.block]
  rcases punct?_unaffected inside more (p := .closeBrace) (by decide) with
    ⟨none, none'⟩ | ⟨t, d, l, _, read, read', inside⟩
  · rw [none, none']
    refine (of_statement ih inside closing).bind fun a d l _ first upTo ↦ ?_
    refine (ih.block upTo ((closes_of_statement first).closing closing) l).bind fun b _ _ _ _ upTo ↦ ?_
    exact .ok rfl rfl upTo
  · rw [read, read']
    exact .ok rfl rfl inside.upTo

end UnaffectedBelow

/-- All functions of the parser are unaffected, however many tokens are ahead. By induction on their
number. -/
theorem unaffectedBelow {more : List Token} (other : EndsBranch more) (n : Nat) :
    UnaffectedBelow more n := by
  induction n with
  | zero =>
    exact ⟨fun _ _ lt ↦ absurd lt (Nat.not_lt_zero _), fun _ _ lt ↦ absurd lt (Nat.not_lt_zero _),
      fun _ _ lt ↦ absurd lt (Nat.not_lt_zero _), fun _ _ lt ↦ absurd lt (Nat.not_lt_zero _),
      fun _ _ lt ↦ absurd lt (Nat.not_lt_zero _)⟩
  | succ n ih =>
    have below : ∀ {c : Cursor}, c.size < n + 1 → UnaffectedBelow more c.size := fun lt ↦
      ih.mono (Nat.le_of_lt_succ lt)
    exact {
      statement := fun h closing lt ↦ (below lt).of_statement h closing
      branch := fun h closing lt ↦ (below lt).of_branch h closing
      alternatives := fun h closing lt ↦ (below lt).of_alternatives other h closing _
      body := fun h closing lt ↦ (below lt).of_body h closing
      block := fun h closing lt ↦ (below lt).of_block h closing }

/-- Statements up to a semicolon are the same with more tokens behind, and the statements that these make up
follow. -/
theorem statements_append {c : Cursor} {more : List Token} {ss ms : List Stmt} (h : c.UpTo)
    (closing : Closing 0 c.rest) (other : EndsBranch more) (parsed : statements c = .ok ss)
    (rest : ∀ s, statements ⟨s, more⟩ = .ok ms) : statements (c.append more) = .ok (ss ++ ms) := by
  rcases h with none | inside
  · obtain ⟨s, ts⟩ := c
    obtain rfl : ts = [] := none
    rw [statements] at parsed
    obtain rfl := Except.ok.inj parsed
    exact rest s
  obtain ⟨s, t, ts, place⟩ := inside.exists_cons
  rw [statements, if_neg (by simp [place])] at parsed
  obtain ⟨r, first, parsed⟩ := exists_of_bind parsed
  obtain ⟨others, behind, parsed⟩ := exists_of_bind parsed
  obtain rfl := Except.ok.inj parsed
  rcases ((unaffectedBelow other _).of_statement inside closing).cases with
    ⟨e, e', fails, -⟩ | ⟨a, d, l, l', read, read', upTo⟩
  · rw [fails] at first
    cases first
  obtain rfl := Except.ok.inj (read.symm.trans first)
  have more' := statements_append upTo ((closes_of_statement read).closing closing) other behind rest
  rw [statements, if_neg (by simp [Cursor.append, place]), read']
  simp only [bind, Except.bind, more']
  show Except.ok _ = Except.ok _
  rw [List.append_assoc]
termination_by c.size

end ConfigScript.Script
