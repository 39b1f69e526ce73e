import ConfigScript.Proofs.Parsing.Balanced

/-!
# Where a skipped statement ends

A statement that the grammar does not know is skipped by counting brackets, without a look at what
it is made of: it ends with the first semicolon or in front of the first closing tag outside all
brackets, or else with a block. The tokens of an expression do not end it (`Encloses.skipped`). So
what is skipped ends where the first statement in it ends, if that one evaluates an expression or
assigns its value (`Settles.skipped`).
-/

namespace ConfigScript.Script

variable {c d : Cursor} {t : Token} {ts : List Token}

/-- Where skipping the rest of a statement ends. -/
def skipped (opened : List Token) (c : Cursor) : Parse Cursor := (skipRest opened c).map Read.next

/-- At the end, skipping succeeds just if no bracket is open. -/
theorem skipped_nil (opened : List Token) (s : Span) :
    skipped opened ⟨s, []⟩ = if opened.isEmpty then .ok ⟨s, []⟩ else .error .atEnd := by
  rw [skipped, skipRest]
  dsimp only [Cursor.advance]
  cases opened <;> rfl

/-- Skipping goes on behind a token as its kind and the open brackets tell. The branches are those of
`skipRest`, without the bookkeeping of how many tokens are left. -/
theorem skipped_cons (opened : List Token) (s : Span) (t : Token) (ts : List Token) :
    skipped opened ⟨s, t :: ts⟩ =
      if opensBracket t then skipped (t :: opened) ⟨t.span, ts⟩
      else match opened with
        | [] =>
          if t.isPunct .semicolon then .ok ⟨t.span, ts⟩
          else if closesBracket t || t.kind == .closeTag then .ok ⟨s, t :: ts⟩
          else skipped [] ⟨t.span, ts⟩
        | opener :: outer =>
          if !closesBracket t then skipped opened ⟨t.span, ts⟩
          else if outer.isEmpty && opener.isPunct .openBrace && !continuesBlock ⟨t.span, ts⟩ then
            .ok ⟨t.span, ts⟩
          else skipped outer ⟨t.span, ts⟩ := by
  obtain ⟨h, step⟩ := Cursor.advance_cons s t ts
  -- Counting the tokens that are left does not change where skipping ends.
  have go : ∀ opened, ((skipRest opened ⟨t.span, ts⟩).map fun rest ↦
      ((⟨t, ⟨t.span, ts⟩, h⟩ : Read Token (Cursor.mk s (t :: ts)).size).andMaybe rest).peeked).map
        Read.next = skipped opened ⟨t.span, ts⟩ := by
    intro opened
    rw [skipped]
    cases skipRest opened ⟨t.span, ts⟩ <;> rfl
  rw [skipped, skipRest, step]
  dsimp only
  by_cases opens : opensBracket t
  · rw [if_pos opens, if_pos opens]
    exact go _
  rw [if_neg opens, if_neg opens]
  cases opened with
  | nil =>
    dsimp only
    by_cases semicolon : t.isPunct .semicolon
    · rw [if_pos semicolon, if_pos semicolon]
      rfl
    rw [if_neg semicolon, if_neg semicolon]
    by_cases closes : closesBracket t || t.kind == .closeTag
    · rw [if_pos closes, if_pos closes]
      rfl
    rw [if_neg closes, if_neg closes]
    exact go _
  | cons opener outer =>
    dsimp only
    by_cases inside : !closesBracket t
    · rw [if_pos inside, if_pos inside]
      exact go _
    rw [if_neg inside, if_neg inside]
    by_cases block : outer.isEmpty && opener.isPunct .openBrace && !continuesBlock ⟨t.span, ts⟩
    · rw [if_pos block, if_pos block]
      rfl
    rw [if_neg block, if_neg block]
    exact go _

/-- A plain token is none that skipping looks at. -/
theorem brackets_of_isPlain {t : Token} (h : isPlain t) : opensBracket t = false ∧
    closesBracket t = false ∧ t.isPunct .semicolon = false ∧ (t.kind == .closeTag) = false := by
  unfold isPlain at h
  unfold opensBracket closesBracket Token.isPunct
  split at h <;> simp_all

/-- A token that is no bracket and ends no statement. -/
theorem skipped_inner {t : Token} (opens : opensBracket t = false)
    (closes : closesBracket t = false) (semicolon : t.isPunct .semicolon = false)
    (tag : (t.kind == .closeTag) = false) (opened : List Token) (s : Span) (ts : List Token) :
    skipped opened ⟨s, t :: ts⟩ = skipped opened ⟨t.span, ts⟩ := by
  rw [skipped_cons]
  cases opened <;> simp [opens, closes, semicolon, tag]

/-- An expression is skipped as a whole. -/
theorem skipped_enclosed {us : List Token} (h : Enclosed us) (opened : List Token) (s : Span)
    (rest : List Token) : skipped opened ⟨s, us ++ rest⟩ = skipped opened ⟨lastSpan s us, rest⟩ := by
  induction h generalizing opened s rest with
  | nil => rfl
  | @plain t ts plain _ ih =>
    obtain ⟨opens, closes, semicolon, tag⟩ := brackets_of_isPlain plain
    rw [List.cons_append, skipped_inner opens closes semicolon tag, lastSpan_cons, ih]
  | @nest o c ts us opens closes _ _ ih ih' =>
    have closes' := closesBracket_of_closesGroup closes
    have brace : o.isPunct .openBrace = false := by
      rw [opensGroup, Bool.or_eq_true, Token.isPunct, Token.isPunct, beq_iff_eq, beq_iff_eq] at opens
      rcases opens with h | h <;> simp [Token.isPunct, h]
    have shape : o :: (ts ++ c :: us) ++ rest = o :: (ts ++ c :: (us ++ rest)) := by simp
    rw [shape, skipped_cons, if_pos (opensBracket_of_opensGroup opens), ih, skipped_cons,
      opensBracket_of_closesBracket closes']
    simp only [Bool.false_eq_true, if_false, closes', Bool.not_true, brace, Bool.and_false,
      Bool.false_and]
    rw [ih']
    simp

/-! ### Statements within a skipped one -/

/-- Skipping goes over enclosed tokens, whatever is open. -/
theorem Encloses.skipped (h : Encloses c d) (opened : List Token) :
    skipped opened c = skipped opened d := by
  obtain ⟨us, took, enclosed⟩ := h
  have whole : c = ⟨c.last, us ++ d.rest⟩ := by rw [← took.rest]
  have behind : d = ⟨lastSpan c.last us, d.rest⟩ := by rw [← took.last]
  rw [whole, behind]
  exact skipped_enclosed enclosed opened _ _

/-- Skipping goes over punctuation that it does not look at. -/
theorem skipped_of_punct {p : Punct} (took : Took c [t] d) (kind : t.kind = .punct p)
    (plain : p ∉ [Punct.openParen, .closeParen, .openBracket, .closeBracket, .openBrace, .closeBrace,
      .semicolon]) (opened : List Token) : skipped opened c = skipped opened d := by
  obtain ⟨s, ts⟩ := c
  obtain ⟨s', us⟩ := d
  obtain ⟨rest, last⟩ := took
  obtain rfl : ts = t :: us := rest
  obtain rfl : s' = t.span := last
  simp only [List.mem_cons, List.not_mem_nil, or_false, not_or] at plain
  refine skipped_inner ?_ ?_ ?_ ?_ opened s us <;>
    simp [opensBracket, closesBracket, Token.isPunct, kind, plain]

/-- Skipping ends with a semicolon where nothing is open. -/
theorem skipped_of_semicolon (took : Took c [t] d) (kind : t.kind = .punct .semicolon) :
    skipped [] c = .ok d := by
  obtain ⟨s, ts⟩ := c
  obtain ⟨s', us⟩ := d
  obtain ⟨rest, last⟩ := took
  obtain rfl : ts = t :: us := rest
  obtain rfl : s' = t.span := last
  rw [skipped_cons, if_neg (by simp [opensBracket, Token.isPunct, kind])]
  exact if_pos (by rw [Token.isPunct, kind, beq_self_eq_true])

/-- Skipping ends in front of a closing tag where nothing is open. -/
theorem skipped_of_closeTag (head : c.rest.head? = some t) (kind : t.kind = .closeTag) :
    skipped [] c = .ok c := by
  obtain ⟨s, ts⟩ := c
  obtain ⟨us, rfl⟩ := List.head?_eq_some_iff.1 head
  rw [skipped_cons, if_neg (by simp [opensBracket, Token.isPunct, kind])]
  dsimp only
  rw [if_neg (by simp [Token.isPunct, kind]), if_pos (by simp [kind])]

/-- What ends a statement ends a skipped one, too. -/
theorem skipped_of_terminator {last : Span} {r : Peeked Span c.size}
    (h : c.terminator last = .ok r) : skipped [] c = .ok r.next := by
  cases terminated_of_terminator h with
  | semicolon took kind => exact skipped_of_semicolon took kind
  | closeTag head kind => exact skipped_of_closeTag head kind

/-- The tokens from `c` to `d` are a statement that evaluates an expression or assigns its value. -/
def Settles (c : Cursor) (a : Stmt) (d : Cursor) : Prop :=
  Yields (expressionStatement c) a d ∨ ∃ h, assignment? c = .ok (some ⟨a, d, h⟩)

/-- A statement that is an expression would be skipped up to the same end. -/
theorem skipped_of_expressionStatement {r : Read Stmt c.size} (h : expressionStatement c = .ok r) :
    skipped [] c = .ok r.next := by
  cases expressed_of_expressionStatement h with
  | mk _ inner last =>
    rw [(encloses_of_expression inner).skipped]
    exact skipped_of_terminator last

/-- An assignment would be skipped up to the same end. -/
theorem skipped_of_assignment {r : Read Stmt c.size} (h : assignment? c = .ok (some r)) :
    skipped [] c = .ok r.next := by
  cases assigned_of_assignment h with
  | @mk left sign op value stop first took' hop inner last =>
    obtain ⟨t, us, took, enclosed, -⟩ := encloses_of_target first
    have front : Encloses c left.next := ⟨_, took, enclosed⟩
    obtain ⟨p, kind, plain⟩ : ∃ p, sign.value.kind = .punct p ∧ p ∉ [Punct.openParen, .closeParen,
        .openBracket, .closeBracket, .openBrace, .closeBrace, .semicolon] := by
      unfold assignOp? at hop
      split at hop
      all_goals first | exact ⟨_, by assumption, by decide⟩ | cases hop
    have middle := skipped_of_punct took' kind plain []
    rw [front.skipped, middle, (encloses_of_expression inner).skipped]
    exact skipped_of_terminator last

/-- A statement that settles would be skipped up to the same end. -/
theorem Settles.skipped {a : Stmt} (h : Settles c a d) : skipped [] c = .ok d := by
  rcases h with ⟨_, h⟩ | ⟨_, h⟩
  · exact skipped_of_expressionStatement h
  · exact skipped_of_assignment h

/-! ### The alternative syntax of conditionals -/

/-- A statement that begins with a token that is no bracket is skipped as the rest behind that token is.
-/
theorem opaqueStatement_of_skipped {s : Span} (opens : opensBracket t = false)
    (closes : closesBracket t = false) (rest : skipped [] ⟨t.span, ts⟩ = .ok d) :
    Yields (opaqueStatement ⟨s, t :: ts⟩) (.opaqueStmt (t.span.through d.last)) d := by
  obtain ⟨_, step⟩ := Cursor.advance_cons s t ts
  rw [Script.skipped] at rest
  cases more : skipRest [] ⟨t.span, ts⟩ with
  | error e => rw [more] at rest; cases rest
  | ok r =>
    rw [more] at rest
    obtain rfl := Except.ok.inj rest
    refine ⟨Nat.lt_of_le_of_lt (Nat.le_of_lt_succ r.shorter) (Nat.lt_succ_self _), ?_⟩
    rw [opaqueStatement, step]
    simp only [bind, Except.bind, closes, opens, Bool.false_eq_true, if_false, more]
    rfl

variable {s sx : Span} {o x u : Token} {us : List Token} {C : Expr} {a : Stmt}

/-- A condition with a colon behind it makes no branch. -/
theorem branch_of_colon (paren : o.kind = .punct .openParen)
    (condition : Yields (expression 0 ⟨o.span, ts⟩) C ⟨sx, x :: u :: us⟩)
    (close : x.kind = .punct .closeParen) (colon : u.kind = .punct .colon) :
    ∃ e, branch ⟨s, o :: ts⟩ = .error e := by
  obtain ⟨_, opening⟩ := Cursor.expect_of_kind (s := s) (r := ts) paren
  obtain ⟨_, condition⟩ := condition
  obtain ⟨_, closing⟩ := Cursor.expect_of_kind (s := sx) (r := u :: us) close
  have ahead : (Cursor.mk x.span (u :: us)).atPunct .colon = true := by
    rw [Cursor.atPunct_cons, Token.isPunct, colon, beq_self_eq_true]
  rw [branch]
  simp only [bind, Except.bind, opening, condition, closing, ahead, if_true]
  exact ⟨_, rfl⟩

/-- A conditional in the alternative syntax is skipped up to the end of the first statement in
it. -/
theorem statement_of_alternative (word : t.isKeyword "if") (paren : o.kind = .punct .openParen)
    (condition : Yields (expression 0 ⟨o.span, ts⟩) C ⟨sx, x :: u :: us⟩)
    (close : x.kind = .punct .closeParen) (colon : u.kind = .punct .colon)
    (first : Settles ⟨u.span, us⟩ a d) : Yields (statement ⟨s, t :: o :: ts⟩)
      (some (.opaqueStmt (t.span.through d.last))) d := by
  obtain ⟨_, step⟩ := Cursor.advance_cons s t (o :: ts)
  have keyword : ∃ n, t.kind = .ident n ∧ String.ofList (lower n.toList) = "if" := by
    rw [Token.isKeyword, beq_iff_eq, Token.keyword?] at word
    split at word
    · exact ⟨_, by assumption, Option.some.inj word⟩
    · cases word
  obtain ⟨n, kind, name⟩ := keyword
  have opens : opensBracket t = false := by simp [opensBracket, Token.isPunct, kind]
  have closes : closesBracket t = false := by simp [closesBracket, Token.isPunct, kind]
  have unknown : ∃ e, structured ⟨s, t :: o :: ts⟩ = .error e := by
    obtain ⟨e, refused⟩ := branch_of_colon (s := t.span) paren condition close colon
    refine ⟨e, ?_⟩
    rw [structured, step]
    simp only [bind, Except.bind, kind, name, beq_self_eq_true, if_true, refused]
  have skips : skipped [] ⟨t.span, o :: ts⟩ = .ok d := by
    obtain ⟨_, inner⟩ := condition
    have group : Encloses ⟨t.span, o :: ts⟩ ⟨x.span, u :: us⟩ :=
      .group ⟨rfl, rfl⟩ (.inl paren) (encloses_of_expression inner) ⟨rfl, rfl⟩ (.inl close)
    have mark : skipped [] ⟨x.span, u :: us⟩ = skipped [] ⟨u.span, us⟩ :=
      skipped_of_punct ⟨rfl, rfl⟩ colon (by decide) []
    rw [group.skipped, mark, first.skipped]
  obtain ⟨e, unknown⟩ := unknown
  obtain ⟨h, rest⟩ := opaqueStatement_of_skipped (s := s) opens closes skips
  refine ⟨h, ?_⟩
  rw [statement, step]
  simp only [bind, Except.bind, kind, unknown, rest]
  rfl

end ConfigScript.Script
