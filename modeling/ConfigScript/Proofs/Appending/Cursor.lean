import ConfigScript.Proofs.Parsing.Alone
import ConfigScript.Proofs.Parsing.Balanced

/-!
# More tokens behind a semicolon

Where the tokens ahead end with a semicolon, a step of the parser that does not read that semicolon does not
see what follows it: with more tokens behind, it yields the same (`Unaffected`). For expressions this holds
because they hold no semicolon, and what was read of one is read again (`expression_unaffected`).
-/

namespace ConfigScript.Script

/-! ### Up to a semicolon -/

namespace Cursor

/-- The same place, with more tokens behind all that are ahead. -/
def append (c : Cursor) (more : List Token) : Cursor := ⟨c.last, c.rest ++ more⟩

/-- Tokens are ahead, and the last of them is a semicolon. -/
def Inside (c : Cursor) : Prop := ∃ t, c.rest.getLast? = some t ∧ t.kind = .punct .semicolon

/-- Nothing is ahead, or the last token ahead is a semicolon. -/
def UpTo (c : Cursor) : Prop := c.rest = [] ∨ c.Inside

variable {c d : Cursor} {us : List Token} {t : Token}

theorem Inside.upTo (h : c.Inside) : c.UpTo := .inr h

/-- Where the last token ahead is a semicolon, a token is ahead. -/
theorem Inside.exists_cons (h : c.Inside) : ∃ s t ts, c = ⟨s, t :: ts⟩ := by
  obtain ⟨s, ts⟩ := c
  cases ts with
  | nil =>
    obtain ⟨t, last, -⟩ := h
    cases last
  | cons t ts => exact ⟨s, t, ts, rfl⟩

/-- Behind some tokens the last one ahead is still the semicolon, if any is ahead. -/
theorem Inside.upTo_of_took (h : c.Inside) (took : Took c us d) : d.UpTo := by
  obtain ⟨t, last, kind⟩ := h
  rw [took.rest, List.getLast?_append] at last
  cases behind : d.rest.getLast? with
  | none => exact .inl (List.getLast?_eq_none_iff.1 behind)
  | some u =>
    rw [behind, Option.some_or] at last
    exact .inr ⟨t, behind.trans last, kind⟩

/-- Behind tokens that are no semicolons, the semicolon is ahead. -/
theorem Inside.behind (h : c.Inside) (took : Took c us d) (others : ∀ u ∈ us, u.kind ≠ .punct .semicolon) :
    d.Inside := by
  refine (h.upTo_of_took took).resolve_left fun none ↦ ?_
  obtain ⟨t, last, kind⟩ := h
  rw [took.rest, none, List.append_nil] at last
  exact others t (List.mem_of_getLast? last) kind

theorem Inside.behind_token (h : c.Inside) (took : Took c [t] d) (other : t.kind ≠ .punct .semicolon) :
    d.Inside := h.behind took (List.forall_mem_singleton.2 other)

theorem Inside.current?_append (h : c.Inside) (more : List Token) :
    (c.append more).current? = c.current? := by
  obtain ⟨s, t, ts, rfl⟩ := h.exists_cons
  rfl

theorem Inside.atPunct_append (h : c.Inside) (more : List Token) (p : Punct) :
    (c.append more).atPunct p = c.atPunct p := by
  rw [atPunct, atPunct, h.current?_append]

end Cursor

/-! ### Steps that do not see what follows -/

/-- Parsers yield the same: both accept with the same value, where more tokens follow behind the second one,
or both do not. What the first one accepts ends at a cursor that satisfies `Q`. -/
def Unaffected {α : Type} {n n' : Nat} (more : List Token) (Q : Cursor → Prop) (x : Parse (Read α n))
    (x' : Parse (Read α n')) : Prop :=
  match x, x' with
  | .ok r, .ok r' => r'.value = r.value ∧ r'.next = r.next.append more ∧ Q r.next
  | .error _, .error _ => True
  | .ok _, .error _ => False
  | .error _, .ok _ => False

namespace Unaffected

variable {α β : Type} {n n' m m' : Nat} {more : List Token} {Q R : Cursor → Prop}

theorem error {e e' : Misfit} :
    Unaffected more Q (.error e : Parse (Read α n)) (.error e' : Parse (Read α n')) := trivial

theorem errors {x : Parse (Read α n)} {x' : Parse (Read α n')} (h : ∃ e, x = .error e)
    (h' : ∃ e, x' = .error e) : Unaffected more Q x x' := by
  obtain ⟨e, rfl⟩ := h
  obtain ⟨e', rfl⟩ := h'
  exact .error

theorem ok {r : Read α n} {r' : Read α n'} (value : r'.value = r.value)
    (next : r'.next = r.next.append more) (holds : Q r.next) : Unaffected more Q (.ok r) (.ok r') :=
  ⟨value, next, holds⟩

/-- What is unaffected fails in both, or succeeds with the same value and with cursors at the same place.
-/
theorem cases {x : Parse (Read α n)} {x' : Parse (Read α n')} (h : Unaffected more Q x x') :
    (∃ e e', x = .error e ∧ x' = .error e') ∨
      ∃ v d h h', x = .ok ⟨v, d, h⟩ ∧ x' = .ok ⟨v, d.append more, h'⟩ ∧ Q d := by
  match x, x' with
  | .error e, .error e' => exact .inl ⟨e, e', rfl, rfl⟩
  | .ok r, .ok r' =>
    obtain ⟨v, d, shorter⟩ := r
    obtain ⟨v', d', shorter'⟩ := r'
    obtain ⟨value, next, holds⟩ := h
    dsimp only at value next
    subst value next
    exact .inr ⟨_, _, shorter, shorter', rfl, rfl, holds⟩
  | .ok _, .error _ => exact h.elim
  | .error _, .ok _ => exact h.elim

/-- One step behind another. -/
theorem bind {x : Parse (Read α n)} {x' : Parse (Read α n')} {f : Read α n → Parse (Read β m)}
    {f' : Read α n' → Parse (Read β m')} (first : Unaffected more Q x x')
    (step : ∀ v d h h', x = .ok ⟨v, d, h⟩ → Q d →
      Unaffected more R (f ⟨v, d, h⟩) (f' ⟨v, d.append more, h'⟩)) :
    Unaffected more R (x >>= f) (x' >>= f') := by
  rcases first.cases with ⟨e, e', rfl, rfl⟩ | ⟨v, d, h, h', rfl, rfl, holds⟩
  · exact .error
  · exact step v d h h' rfl holds

end Unaffected

variable {c d : Cursor}

/-- The same token is accepted with more tokens behind, or none is. -/
theorem accept?_unaffected (h : c.Inside) (more : List Token) (p : Token → Bool) :
    (c.accept? p = none ∧ (c.append more).accept? p = none) ∨
      ∃ t d l l', c.accept? p = some ⟨t, d, l⟩ ∧
        (c.append more).accept? p = some ⟨t, d.append more, l'⟩ ∧ Took c [t] d ∧ p t := by
  obtain ⟨s, t, ts, rfl⟩ := h.exists_cons
  have step (r : List Token) : (Cursor.mk s (t :: r)).accept? p =
      if p t then some ⟨t, ⟨t.span, r⟩, Nat.lt_succ_self _⟩ else none := rfl
  cases is : p t with
  | true =>
    refine .inr ⟨t, ⟨t.span, ts⟩, Nat.lt_succ_self _, Nat.lt_succ_self _, ?_, ?_, ⟨rfl, rfl⟩, is⟩
    · rw [step, if_pos is]
    · exact (step (ts ++ more)).trans (if_pos is)
  | false =>
    refine .inl ⟨?_, ?_⟩
    · rw [step, if_neg (Bool.eq_false_iff.1 is)]
    · exact (step (ts ++ more)).trans (if_neg (Bool.eq_false_iff.1 is))

/-- Reading a token other than a semicolon. -/
theorem punct?_unaffected (h : c.Inside) (more : List Token) {p : Punct} (other : p ≠ .semicolon) :
    (c.punct? p = none ∧ (c.append more).punct? p = none) ∨
      ∃ t d l l', c.punct? p = some ⟨t, d, l⟩ ∧
        (c.append more).punct? p = some ⟨t, d.append more, l'⟩ ∧ d.Inside := by
  rcases accept?_unaffected h more (·.isPunct p) with none | ⟨t, d, l, l', read, read', took, is⟩
  · exact .inl none
  · refine .inr ⟨t, d, l, l', read, read', h.behind_token took fun kind ↦ other ?_⟩
    rw [Token.isPunct, kind, beq_iff_eq] at is
    exact (TokenKind.punct.inj is).symm

/-- The same keyword is ahead with more tokens behind, or none is. Behind it tokens are left, for it is
no semicolon. -/
theorem keyword?_unaffected (h : c.Inside) (more : List Token) (word : String) :
    (c.keyword? word = none ∧ (c.append more).keyword? word = none) ∨
      ∃ t d l l', c.keyword? word = some ⟨t, d, l⟩ ∧
        (c.append more).keyword? word = some ⟨t, d.append more, l'⟩ ∧ d.Inside := by
  rcases accept?_unaffected h more (·.isKeyword word) with none | ⟨t, d, l, l', read, read', took, is⟩
  · exact .inl none
  · refine .inr ⟨t, d, l, l', read, read', h.behind_token took fun kind ↦ ?_⟩
    simp [Token.isKeyword, Token.keyword?, kind] at is

theorem advance_unaffected (h : c.Inside) (more : List Token) :
    Unaffected more Cursor.UpTo c.advance (c.append more).advance := by
  obtain ⟨s, t, ts, rfl⟩ := h.exists_cons
  exact .ok rfl rfl (h.upTo_of_took (show Took _ [t] _ from ⟨rfl, rfl⟩))

/-- What is expected is there with more tokens behind just if it is without them. -/
theorem expect_unaffected (h : c.Inside) (more : List Token) {p : Punct} (other : p ≠ .semicolon) :
    Unaffected more Cursor.Inside (c.expect p) ((c.append more).expect p) := by
  refine (advance_unaffected h more).bind fun t d l l' read _ ↦ ?_
  dsimp only
  split
  · rename_i is
    refine .ok rfl rfl (h.behind_token (took_of_advance read) fun kind ↦ other ?_)
    rw [Token.isPunct, kind, beq_iff_eq] at is
    exact (TokenKind.punct.inj is).symm
  · exact .error

/-- The end of a statement is unaffected, the only step that may read the last semicolon. -/
theorem terminator_unaffected (h : c.Inside) (more : List Token) (last : Span) :
    Unaffected more Cursor.UpTo (c.terminator last) ((c.append more).terminator last) := by
  rw [Cursor.terminator, Cursor.terminator]
  rcases (advance_unaffected h more).cases with ⟨e, e', read, read'⟩ | ⟨t, d, l, l', read, read', upTo⟩
  · rw [read, read']
    exact .error
  rw [read, read']
  dsimp only
  split
  · exact .ok rfl rfl upTo
  split
  · exact .ok rfl rfl h.upTo
  · exact .error

/-! ### Expressions -/

/-- No token of an expression is a semicolon. -/
theorem Enclosed.ne_semicolon {us : List Token} (h : Enclosed us) {u : Token} (mem : u ∈ us) :
    u.kind ≠ .punct .semicolon := by
  intro kind
  have plain := h.isPlain_of mem fun p hp ↦ by
    obtain rfl := TokenKind.punct.inj (kind.symm.trans hp)
    decide
  simp [isPlain, kind] at plain

/-- What an expression takes of tokens that end with a semicolon, and of more tokens behind, stands in front
of the semicolon. -/
theorem Cursor.Inside.exists_of_enclosed (h : c.Inside) {more us rest : List Token} (enclosed : Enclosed us)
    (text : c.rest ++ more = us ++ rest) : ∃ t ts, c.rest = us ++ t :: ts ∧ rest = t :: ts ++ more := by
  obtain ⟨t, last, kind⟩ := h
  have mem := List.mem_of_getLast? last
  rcases List.append_eq_append_iff.1 text with ⟨vs, rfl, -⟩ | ⟨vs, here, rfl⟩
  · exact absurd kind (enclosed.ne_semicolon (List.mem_append_left _ mem))
  · cases vs with
    | nil =>
      rw [here, List.append_nil] at mem
      exact absurd kind (enclosed.ne_semicolon mem)
    | cons v vs => exact ⟨v, vs, here, rfl⟩

/-- What is read as an expression is read again from its tokens, which are enclosed. -/
theorem recurs_of_expression {min : Nat} {r : Read Expr c.size} (h : expression min c = .ok r) :
    ∃ us, Took c us r.next ∧ Enclosed us ∧ Recurs (expression min) us r.next.rest r.value := by
  obtain ⟨us, took, whole, halts⟩ := reread_expression (rereads _) h
  obtain ⟨vs, took', enclosed⟩ := encloses_of_expression h
  obtain rfl : us = vs := List.append_cancel_right (took.rest.symm.trans took'.rest)
  exact ⟨us, took, enclosed, whole.recurs halts⟩

/-- An expression ends in front of the semicolon, so it is the same whatever follows that. -/
theorem expression_unaffected (h : c.Inside) (more : List Token) (min : Nat) :
    Unaffected more Cursor.Inside (expression min c) (expression min (c.append more)) := by
  cases read : expression min c with
  | ok r =>
    obtain ⟨us, took, enclosed, recurs⟩ := recurs_of_expression read
    have inside := h.behind took fun u hu ↦ enclosed.ne_semicolon hu
    obtain ⟨s, t, ts, next⟩ := inside.exists_cons
    rw [next] at recurs
    obtain ⟨_, again⟩ := recurs c.last (t :: ts ++ more) (.cons t ts _)
    have place : c.append more = ⟨c.last, us ++ (t :: ts ++ more)⟩ := by
      rw [Cursor.append, took.rest, next, List.append_assoc]
    rw [place, again]
    refine .ok rfl ?_ inside
    rw [Cursor.append, took.last, next]
  | error e =>
    cases read' : expression min (c.append more) with
    | error e' => exact .error
    | ok r =>
      obtain ⟨us, took, enclosed, recurs⟩ := recurs_of_expression read'
      obtain ⟨t, ts, rest, behind⟩ := h.exists_of_enclosed enclosed took.rest
      rw [behind] at recurs
      have again := recurs c.last (t :: ts) (.cons t _ ts)
      rw [← rest] at again
      obtain ⟨_, again⟩ := again
      cases read.symm.trans again

end ConfigScript.Script
