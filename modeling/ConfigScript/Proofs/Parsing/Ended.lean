import ConfigScript.Proofs.Parsing.Tiling

/-!
# What ends a statement

A statement with a grammar and without others inside ends with a semicolon, or a closing tag stands
behind it (`sealed_of_statements`). Of the tags, none begins it.
-/

namespace ConfigScript.Script

variable {b c d : Cursor} {us : List Token} {t : Token}

/-- The tokens from `c` to `next` end with a semicolon, or a closing tag is ahead then. -/
def Ended (c next : Cursor) : Prop :=
  ∃ us, Took c us next ∧ ((∃ u, us.getLast? = some u ∧ u.kind = .punct .semicolon) ∨
    ∃ t, next.rest.head? = some t ∧ t.kind = .closeTag)

namespace Ended

/-- More tokens in front. -/
theorem before (h : Ended c d) (took : Took b us c) : Ended b d := by
  obtain ⟨vs, took', ends⟩ := h
  refine ⟨_, took.trans took', ends.imp_left fun ⟨u, last, kind⟩ ↦ ⟨u, ?_, kind⟩⟩
  rw [List.getLast?_append, last]
  rfl

/-- What is ended by a terminator behind balanced tokens is ended. -/
theorem of_terminator {last : Span} {r : Peeked Span d.size} (front : Balances c d)
    (stop : d.terminator last = .ok r) : Ended c r.next := by
  obtain ⟨us, took, -⟩ := front
  refine before ?_ took
  cases terminated_of_terminator stop with
  | @semicolon t here kind => exact ⟨_, here, .inl ⟨t.value, rfl, kind⟩⟩
  | @closeTag t head kind => exact ⟨[], .refl d, .inr ⟨t, head, kind⟩⟩

end Ended

/-! ### The statements with a grammar -/

/-- A statement that is an expression is ended. -/
theorem ended_of_expressionStatement {r : Read Stmt c.size} (h : expressionStatement c = .ok r) :
    Ended c r.next := by
  cases expressed_of_expressionStatement h with
  | mk _ inner last => exact .of_terminator (balances_of_expression inner) last

/-- An assignment is ended. -/
theorem ended_of_assignment {r : Read Stmt c.size} (h : assignment? c = .ok (some r)) :
    Ended c r.next := by
  cases assigned_of_assignment h with
  | @mk left sign op value stop first took' hop inner last =>
    obtain ⟨_, _, took, -⟩ := encloses_of_target first
    obtain ⟨_, took'', -⟩ := balances_of_expression inner
    have behind : Ended value.next stop.next := .of_terminator (.refl _) last
    exact behind.before ((took.trans took').trans took'')

/-- A statement that begins with a word is ended. -/
theorem Worded.ended {r : Peeked Stmt c.size} (h : Worded t r) : Ended c r.next := by
  cases h with
  | load inner last | ending _ inner last => exact .of_terminator (balances_of_expression inner) last
  | const list last => exact .of_terminator (balances_of_constItems list) last
  | unset took opens list last =>
    obtain ⟨d, x, inside, took', closes, -⟩ := balances_of_unsetTargets list
    exact .of_terminator (.group took (opensBracket_of_kind (.inl opens)) inside took' closes) last
  | global list last => exact .of_terminator (balances_of_globalNames list) last
  | bare _ last => exact .of_terminator (.refl c) last

/-- A statement with a grammar is ended if no others are inside it. -/
theorem ended_of_structured {r : Read Stmt c.size} (h : structured c = .ok r) (flat : isFlat r.value) :
    Ended c r.next := by
  cases structured_cases h with
  | conditional => cases flat
  | word took kind worded => exact worded.ended.before took
  | assignment h => exact ended_of_assignment h
  | expression word h => exact ended_of_expressionStatement h

/-! ### What begins them -/

/-- Balanced tokens begin with one of the script, if there are any. -/
theorem Balances.script_head (h : Balances c d) (lt : d.size < c.size) :
    ∀ t ∈ c.rest.head?, isScript t.kind := by
  obtain ⟨us, took, balanced⟩ := h
  cases us with
  | nil =>
    rw [Cursor.size, Cursor.size, took.rest] at lt
    exact absurd lt (Nat.lt_irrefl _)
  | cons u us =>
    intro t ht
    rw [head?_of_took took] at ht
    obtain rfl := Option.some.inj ht
    exact balanced.isScript _ List.mem_cons_self

/-- A statement with a grammar begins with a token of the script. -/
theorem script_of_structured {r : Read Stmt c.size} (h : structured c = .ok r) :
    ∀ t ∈ c.rest.head?, isScript t.kind := by
  have word : ∀ {t : Token} {name : String} {d : Cursor}, Took c [t] d → t.kind = .ident name →
      ∀ t ∈ c.rest.head?, isScript t.kind := by
    intro t name d took kind u hu
    rw [head?_of_took took] at hu
    obtain rfl := Option.some.inj hu
    rw [kind]
    rfl
  cases structured_cases h with
  | conditional took kind => exact word took kind
  | word took kind => exact word took kind
  | assignment h =>
    obtain ⟨_, -, forms⟩ := forms_of_assignment h
    exact forms.balances.script_head r.shorter
  | expression _ h =>
    obtain ⟨_, -, forms⟩ := forms_of_expressionStatement h
    exact forms.balances.script_head r.shorter

/-! ### Scripts -/

/-- The tokens hold a run with this span. A token of the script begins it; it ends with a semicolon, or a
closing tag stands behind it. -/
def Sealed (ts : List Token) (s : Span) : Prop :=
  ∃ us vs t u, us ++ vs <:+ ts ∧ us.head? = some t ∧ us.getLast? = some u ∧ isScript t.kind ∧
    u.kind ≠ .openTag ∧ s = { t.span with stop := u.span.stop } ∧
    (u.kind = .punct .semicolon ∨ ∃ w, vs.head? = some w ∧ w.kind = .closeTag)

/-- So do all statements end, wherever they stand, that have a grammar and no others inside. -/
theorem sealed_of_statements {ss : List Stmt} (ready : Ready c) (h : statements c = .ok ss) :
    ∀ n ∈ Stmt.nodesOfList ss, isFlat n → n.isBare = false → Sealed c.rest n.span := by
  intro n mem flat own
  obtain ⟨d, r, here, read, rfl⟩ := stems_of_statements h n mem own
  obtain ⟨us, took, ⟨t, u, first, last, -, script, span⟩, -⟩ :=
    seat_of_structured (seatsAll _) (ready.suffix here) read
  obtain ⟨vs, took', ends⟩ := ended_of_structured read flat
  obtain rfl : vs = us := List.append_cancel_right (took'.rest.symm.trans took.rest)
  have begins := script_of_structured read t (by rw [took.rest, List.head?_append, first]; rfl)
  refine ⟨vs, r.next.rest, t, u, took.rest ▸ here, first, last, begins, script, span, ?_⟩
  refine ends.imp_left fun ⟨u', last', kind⟩ ↦ ?_
  rw [last] at last'
  obtain rfl := Option.some.inj last'
  exact kind

end ConfigScript.Script
