import ConfigScript.Proofs.Appending.Cursor
import ConfigScript.Proofs.Parsing.Depth
import ConfigScript.Proofs.Patching.Simple

/-!
# Statements without others inside, with more tokens behind

A statement without others inside ends with the first semicolon that it does not hold in brackets, so it
does not see what follows a last semicolon. The same holds of a skipped statement, as long as the brackets
that it opens are closed in front of that semicolon.
-/

namespace ConfigScript.Script

variable {c : Cursor}

/-! ### Targets -/

/-- The indices of a target are unaffected. -/
theorem indices_unaffected {c : Cursor} (h : c.Inside) (more : List Token) (stop : Span) :
    Unaffected more Cursor.Inside (indices stop c) (indices stop (c.append more)) := by
  rw [indices, indices]
  rcases punct?_unaffected h more (p := .openBracket) (by decide) with
    ⟨none, none'⟩ | ⟨t, d, l, l', read, read', inside⟩
  · rw [none, none']
    exact .ok rfl rfl h
  rw [read, read']
  dsimp only
  rcases punct?_unaffected inside more (p := .closeBracket) (by decide) with
    ⟨none, none'⟩ | ⟨u, e, k, k', read, read', inside⟩
  · rw [none, none']
    refine (expression_unaffected inside more 0).bind fun i e k k' _ inside ↦ ?_
    refine (expect_unaffected inside more (p := .closeBracket) (by decide)).bind
      fun s f m m' _ inside ↦ ?_
    have shorter : f.size < c.size := Nat.lt_trans m (Nat.lt_trans k l)
    refine (indices_unaffected inside more s).bind fun a g _ _ _ inside ↦ ?_
    exact .ok rfl rfl inside
  · rw [read, read']
    have shorter : e.size < c.size := Nat.lt_trans k l
    refine (indices_unaffected inside more u.span).bind fun a g _ _ _ inside ↦ ?_
    exact .ok rfl rfl inside
termination_by c.size

/-- A target is unaffected. -/
theorem target_unaffected (h : c.Inside) (more : List Token) :
    Unaffected more Cursor.Inside (target c) (target (c.append more)) := by
  rw [target, target]
  refine (advance_unaffected h more).bind fun t d _ _ read _ ↦ ?_
  dsimp only
  split
  · rename_i name kind
    have inside := h.behind_token (took_of_advance read) (by simp [kind])
    refine (indices_unaffected inside more t.span).bind fun a e _ _ _ inside ↦ ?_
    exact .ok rfl rfl inside
  · exact .error

/-- The targets of `unset` are unaffected. -/
theorem unsetTargets_unaffected {c : Cursor} (h : c.Inside) (more : List Token) :
    Unaffected more Cursor.Inside (unsetTargets c) (unsetTargets (c.append more)) := by
  rw [unsetTargets, unsetTargets]
  rcases punct?_unaffected h more (p := .closeParen) (by decide) with
    ⟨none, none'⟩ | ⟨t, d, _, _, read, read', inside⟩
  · rw [none, none']
    refine (target_unaffected h more).bind fun a d l l' _ inside ↦ ?_
    dsimp only
    rcases punct?_unaffected inside more (p := .comma) (by decide) with
      ⟨none, none'⟩ | ⟨t, e, k, k', read, read', inside⟩
    · rw [none, none']
      refine (unsetTargets_unaffected inside more).bind fun a e _ _ _ inside ↦ ?_
      exact .ok rfl rfl inside
    · rw [read, read']
      have shorter : e.size < c.size := Nat.lt_trans k l
      refine (unsetTargets_unaffected inside more).bind fun a e _ _ _ inside ↦ ?_
      exact .ok rfl rfl inside
  · rw [read, read']
    exact .ok rfl rfl inside
termination_by c.size

/-! ### Statements -/

/-- A statement that loads a file is unaffected. -/
theorem loadStatement_unaffected (h : c.Inside) (more : List Token) (start : Span) (kind : IncludeKind) :
    Unaffected more Cursor.UpTo (loadStatement start kind c) (loadStatement start kind (c.append more)) := by
  rw [loadStatement, loadStatement]
  refine (expression_unaffected h more 0).bind fun e d _ _ _ inside ↦ ?_
  refine (terminator_unaffected inside more e.span).bind fun s d _ _ _ upTo ↦ ?_
  exact .ok rfl rfl upTo

/-- A statement that is an expression is unaffected. -/
theorem expressionStatement_unaffected (h : c.Inside) (more : List Token) :
    Unaffected more Cursor.UpTo (expressionStatement c) (expressionStatement (c.append more)) := by
  rw [expressionStatement, expressionStatement]
  refine (advance_unaffected h more).bind fun t _ _ _ _ _ ↦ ?_
  refine (expression_unaffected h more 0).bind fun e d _ _ _ inside ↦ ?_
  refine (terminator_unaffected inside more e.span).bind fun s d _ _ _ upTo ↦ ?_
  exact .ok rfl rfl upTo

/-- Declared constants are unaffected. -/
theorem constItems_unaffected {c : Cursor} (h : c.Inside) (more : List Token) :
    Unaffected more Cursor.Inside (constItems c) (constItems (c.append more)) := by
  rw [constItems, constItems]
  refine (advance_unaffected h more).bind fun t d l _ read _ ↦ ?_
  dsimp only
  split
  · rename_i name kind
    have inside := h.behind_token (took_of_advance read) (by simp [kind])
    refine (expect_unaffected inside more (p := .assign) (by decide)).bind fun s e k _ _ inside ↦ ?_
    refine (expression_unaffected inside more 0).bind fun v f m _ _ inside ↦ ?_
    dsimp only
    rcases punct?_unaffected inside more (p := .comma) (by decide) with
      ⟨none, none'⟩ | ⟨u, g, j, _, read, read', inside'⟩
    · rw [none, none']
      exact .ok rfl rfl inside
    · rw [read, read']
      have shorter : g.size < c.size := Nat.lt_trans j (Nat.lt_trans m (Nat.lt_trans k l))
      refine (constItems_unaffected inside' more).bind fun a e _ _ _ inside ↦ ?_
      exact .ok rfl rfl inside
  · exact .error
termination_by c.size

/-- A declaration of constants is unaffected. -/
theorem constStatement_unaffected (h : c.Inside) (more : List Token) (start : Span) :
    Unaffected more Cursor.UpTo (constStatement start c) (constStatement start (c.append more)) := by
  rw [constStatement, constStatement]
  refine (constItems_unaffected h more).bind fun a d _ _ _ inside ↦ ?_
  refine (terminator_unaffected inside more d.last).bind fun s e _ _ _ upTo ↦ ?_
  exact .ok rfl rfl upTo

/-- A statement that unsets targets is unaffected. -/
theorem unsetStatement_unaffected (h : c.Inside) (more : List Token) (start : Span) :
    Unaffected more Cursor.UpTo (unsetStatement start c) (unsetStatement start (c.append more)) := by
  rw [unsetStatement, unsetStatement]
  refine (expect_unaffected h more (p := .openParen) (by decide)).bind fun _ d _ _ _ inside ↦ ?_
  refine (unsetTargets_unaffected inside more).bind fun a d _ _ _ inside ↦ ?_
  refine (terminator_unaffected inside more a.2).bind fun s e _ _ _ upTo ↦ ?_
  exact .ok rfl rfl upTo

/-- The names of `global` are unaffected. -/
theorem globalNames_unaffected {c : Cursor} (h : c.Inside) (more : List Token) :
    Unaffected more Cursor.Inside (globalNames c) (globalNames (c.append more)) := by
  rw [globalNames, globalNames]
  refine (advance_unaffected h more).bind fun t d l _ read _ ↦ ?_
  dsimp only
  split
  · rename_i name kind
    have inside := h.behind_token (took_of_advance read) (by simp [kind])
    rcases punct?_unaffected inside more (p := .comma) (by decide) with
      ⟨none, none'⟩ | ⟨u, e, k, _, read, read', inside'⟩
    · rw [none, none']
      exact .ok rfl rfl inside
    · rw [read, read']
      have shorter : e.size < c.size := Nat.lt_trans k l
      refine (globalNames_unaffected inside' more).bind fun a e _ _ _ inside ↦ ?_
      exact .ok rfl rfl inside
  · exact .error
termination_by c.size

/-- A statement that declares globals is unaffected. -/
theorem globalStatement_unaffected (h : c.Inside) (more : List Token) (start : Span) :
    Unaffected more Cursor.UpTo (globalStatement start c) (globalStatement start (c.append more)) := by
  rw [globalStatement, globalStatement]
  refine (globalNames_unaffected h more).bind fun a d _ _ _ inside ↦ ?_
  refine (terminator_unaffected inside more d.last).bind fun s e _ _ _ upTo ↦ ?_
  exact .ok rfl rfl upTo

/-- A statement that ends the script is unaffected. -/
theorem endingStatement_unaffected (h : c.Inside) (more : List Token) (start : Span) (stmt : Span → Stmt) :
    Unaffected more Cursor.UpTo (endingStatement start stmt c)
      (endingStatement start stmt (c.append more)) := by
  have same : atStatementEnd (c.append more) = atStatementEnd c := by
    rw [atStatementEnd, atStatementEnd, h.current?_append]
  rw [endingStatement, endingStatement, same]
  split
  · refine (terminator_unaffected h more start).bind fun s d _ _ _ upTo ↦ ?_
    exact .ok rfl rfl upTo
  · refine (expression_unaffected h more 0).bind fun e d _ _ _ inside ↦ ?_
    refine (terminator_unaffected inside more d.last).bind fun s d _ _ _ upTo ↦ ?_
    exact .ok rfl rfl upTo

theorem Unaffected.peeked {α : Type} {n n' : Nat} {more : List Token} {Q : Cursor → Prop}
    {x : Parse (Read α n)} {x' : Parse (Read α n')} (h : Unaffected more Q x x') :
    Unaffected more Q (x.map Read.peeked) (x'.map Read.peeked) := by
  cases x <;> cases x' <;> exact h

/-- What may be an assignment. -/
theorem assignment?_unaffected (h : c.Inside) (more : List Token) :
    ((∃ e, assignment? c = .error e) ∧ ∃ e, assignment? (c.append more) = .error e) ∨
      (assignment? c = .ok none ∧ assignment? (c.append more) = .ok none) ∨
      ∃ r r', assignment? c = .ok (some r) ∧ assignment? (c.append more) = .ok (some r') ∧
        Unaffected more Cursor.UpTo (.ok r) (.ok r') := by
  rw [assignment?, assignment?]
  rcases (target_unaffected h more).cases with
    ⟨e, e', fails, fails'⟩ | ⟨t, d, l, l', read, read', inside⟩
  · rw [fails, fails']
    exact .inl ⟨⟨_, rfl⟩, ⟨_, rfl⟩⟩
  rw [read, read']
  rcases (advance_unaffected inside more).cases with
    ⟨e, e', fails, fails'⟩ | ⟨u, e, k, k', step, step', -⟩
  · simp only [bind, Except.bind, fails, fails']
    exact .inr (.inl ⟨rfl, rfl⟩)
  simp only [bind, Except.bind, step, step']
  cases hop : assignOp? u with
  | none => exact .inr (.inl ⟨rfl, rfl⟩)
  | some op =>
    dsimp only
    have other : u.kind ≠ .punct .semicolon := fun kind ↦ by simp [assignOp?, kind] at hop
    have inside := inside.behind_token (took_of_advance step) other
    rw [inside.atPunct_append]
    split
    · exact .inl ⟨Twinning.Settled.exists_unsupported _ _, Twinning.Settled.exists_unsupported _ _⟩
    rcases (expression_unaffected inside more 0).cases with
      ⟨e, e', fails, fails'⟩ | ⟨v, f, m, m', value, value', inside⟩
    · rw [fails, fails']
      exact .inl ⟨⟨_, rfl⟩, ⟨_, rfl⟩⟩
    rw [value, value']
    dsimp only
    rcases (terminator_unaffected inside more v.span).cases with
      ⟨e, e', fails, fails'⟩ | ⟨stop, g, j, j', last, last', upTo⟩
    · rw [fails, fails']
      exact .inl ⟨⟨_, rfl⟩, ⟨_, rfl⟩⟩
    rw [last, last']
    exact .inr (.inr ⟨_, _, rfl, rfl, .ok rfl rfl upTo⟩)

/-- What a word begins. -/
theorem wordStatement?_unaffected (h : c.Inside) (more : List Token) (word : String) (t : Token) :
    (wordStatement? word t c = none ∧ wordStatement? word t (c.append more) = none) ∨
      ∃ x x', wordStatement? word t c = some x ∧ wordStatement? word t (c.append more) = some x' ∧
        Unaffected more Cursor.UpTo x x' := by
  rw [wordStatement?, wordStatement?]
  dsimp only
  split
  · exact .inr ⟨_, _, rfl, rfl, (loadStatement_unaffected h more _ _).peeked⟩
  split
  · exact .inr ⟨_, _, rfl, rfl, (constStatement_unaffected h more _).peeked⟩
  split
  · exact .inr ⟨_, _, rfl, rfl, (unsetStatement_unaffected h more _).peeked⟩
  split
  · exact .inr ⟨_, _, rfl, rfl, (globalStatement_unaffected h more _).peeked⟩
  split
  · exact .inr ⟨_, _, rfl, rfl, endingStatement_unaffected h more _ _⟩
  split
  · exact .inr ⟨_, _, rfl, rfl, endingStatement_unaffected h more _ _⟩
  split
  · exact .inr ⟨_, _, rfl, rfl, .error⟩
  · exact .inl ⟨rfl, rfl⟩

/-! ### Skipping -/

/-- Where brackets are open, tokens are ahead. -/
theorem Cursor.UpTo.inside_of_closing {n : Nat} (h : c.UpTo) (open' : Closing (n + 1) c.rest) : c.Inside := by
  refine h.resolve_left fun none ↦ ?_
  rw [none] at open'
  cases open'

theorem continuesBlock_append (h : c.Inside) (more : List Token) :
    continuesBlock (c.append more) = continuesBlock c := by
  rw [continuesBlock, continuesBlock, h.current?_append]

/-- Skipping ends in front of the tokens that follow, for the brackets that are open are closed before. -/
theorem skipped_append {c : Cursor} {n : Nat} {opened : List Token} (h : c.Inside)
    (closing : Closing (opened.length + n) c.rest) (more : List Token) :
    ((∃ e, skipped opened c = .error e) ∧ ∃ e, skipped opened (c.append more) = .error e) ∨
      ∃ d, skipped opened c = .ok d ∧ skipped opened (c.append more) = .ok (d.append more) ∧ d.UpTo := by
  obtain ⟨s, t, ts, rfl⟩ := h.exists_cons
  have shorter : (Cursor.mk t.span ts).size < (Cursor.mk s (t :: ts)).size := Nat.lt_succ_self _
  have upTo : (Cursor.mk t.span ts).UpTo := h.upTo_of_took (show Took _ [t] _ from ⟨rfl, rfl⟩)
  -- Only behind the last semicolon may no token be left.
  have inside (other : t.kind ≠ .punct .semicolon) : (Cursor.mk t.span ts).Inside :=
    h.behind_token (t := t) ⟨rfl, rfl⟩ other
  have place : (Cursor.mk s (t :: ts)).append more = ⟨s, t :: (ts ++ more)⟩ := rfl
  have next : (Cursor.mk t.span ts).append more = ⟨t.span, ts ++ more⟩ := rfl
  rw [place, skipped_cons, skipped_cons, ← next]
  by_cases opens : opensBracket t
  · rw [if_pos opens, if_pos opens]
    have other : t.kind ≠ .punct .semicolon := fun kind ↦ by
      simp [opensBracket, Token.isPunct, kind] at opens
    refine skipped_append (n := n) (inside other) ?_ more
    rw [List.length_cons, Nat.add_right_comm]
    exact closing.of_opens opens
  rw [if_neg opens, if_neg opens]
  rw [Bool.not_eq_true] at opens
  cases opened with
  | nil =>
    dsimp only
    by_cases semicolon : t.isPunct .semicolon
    · rw [if_pos semicolon, if_pos semicolon]
      exact .inr ⟨_, rfl, rfl, upTo⟩
    rw [if_neg semicolon, if_neg semicolon]
    split
    · exact .inr ⟨_, rfl, rfl, h.upTo⟩
    · rename_i stays
      rw [Bool.or_eq_true, not_or, Bool.not_eq_true] at stays
      exact skipped_append (inside (by simpa [Token.isPunct] using semicolon))
        (closing.of_plain opens stays.1) more
  | cons opener outer =>
    dsimp only
    split
    · rename_i closes
      rw [Bool.not_eq_true'] at closes
      have closing := closing.of_plain opens closes
      refine skipped_append (upTo.inside_of_closing (n := outer.length + n) ?_) closing more
      rwa [List.length_cons, Nat.add_right_comm] at closing
    · rename_i closes
      rw [Bool.not_eq_true', Bool.not_eq_false] at closes
      have other : t.kind ≠ .punct .semicolon := fun kind ↦ by
        simp [closesBracket, Token.isPunct, kind] at closes
      rw [continuesBlock_append (inside other)]
      split
      · exact .inr ⟨_, rfl, rfl, upTo⟩
      · obtain ⟨m, same, closing⟩ := closing.of_closes closes
        rw [List.length_cons, Nat.add_right_comm] at same
        obtain rfl := Nat.succ.inj same
        exact skipped_append (inside other) closing more
termination_by c.size

/-- Skipping is unaffected if all brackets that are open are closed in the tokens ahead, for it does not
get behind the last semicolon then. -/
theorem skipRest_unaffected {n : Nat} {opened : List Token} (h : c.Inside)
    (closing : Closing (opened.length + n) c.rest) (more : List Token) :
    Unaffected more Cursor.UpTo (skipRest opened c) (skipRest opened (c.append more)) := by
  have same := skipped_append h closing more
  rw [skipped, skipped] at same
  revert same
  cases skipRest opened c <;> cases skipRest opened (c.append more) <;> intro same
  · exact .error
  · obtain ⟨-, e, same⟩ | ⟨_, same, -⟩ := same <;> cases same
  · obtain ⟨⟨e, same⟩, -⟩ | ⟨_, -, same, -⟩ := same <;> cases same
  · obtain ⟨⟨e, same⟩, -⟩ | ⟨d, same, same', upTo⟩ := same
    · cases same
    · obtain rfl := Except.ok.inj same
      exact .ok rfl (Except.ok.inj same') upTo

/-- A skipped statement, which does not begin with a semicolon. -/
theorem opaqueStatement_unaffected {n : Nat} (h : c.Inside) (closing : Closing n c.rest)
    (other : ∀ t ∈ c.rest.head?, t.kind ≠ .punct .semicolon) (more : List Token) :
    Unaffected more Cursor.UpTo (opaqueStatement c) (opaqueStatement (c.append more)) := by
  rw [opaqueStatement, opaqueStatement]
  refine (advance_unaffected h more).bind fun t d l l' read _ ↦ ?_
  have took := took_of_advance read
  have inside := h.behind_token took (other t (head?_of_took took))
  rw [took.rest] at closing
  dsimp only
  split
  · exact .error
  rename_i closes
  rw [Bool.not_eq_true] at closes
  have skips : Unaffected more Cursor.UpTo (skipRest (if opensBracket t then [t] else []) d)
      (skipRest (if opensBracket t then [t] else []) (d.append more)) := by
    split
    · rename_i opens
      refine skipRest_unaffected (n := n) inside ?_ more
      rw [List.length_singleton, Nat.add_comm]
      exact closing.of_opens opens
    · rename_i opens
      refine skipRest_unaffected (n := n) inside ?_ more
      rw [List.length_nil, Nat.zero_add]
      exact closing.of_plain (Bool.eq_false_iff.2 opens) closes
  refine skips.bind fun _ e _ _ _ upTo ↦ ?_
  exact .ok rfl rfl upTo

end ConfigScript.Script
