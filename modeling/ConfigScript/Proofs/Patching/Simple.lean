import ConfigScript.Proofs.Parsing.Skipped
import ConfigScript.Proofs.Patching.Whole

/-!
# Simple statements in two texts at once

Statements without others inside are parsed alike in twins up to the end, and what is skipped in one of
them is skipped in the other one.
-/

namespace ConfigScript.Script.Twinning

variable {w : Twinning} {c c' : Cursor}

/-- A statement, and what the patch makes of it. -/
def SameStmt (w : Twinning) (s s' : Stmt) : Prop := s' = w.patch.stmt s

/-- Targets with the span that ends them. -/
def SameIndices (w : Twinning) (a a' : List (Option Expr) × Span) : Prop :=
  a'.1 = a.1.map (·.map w.patch.expr) ∧ w.Ends a.2 a'.2

/-- Targets in a list with the span that ends it. -/
def SameTargets (w : Twinning) (a a' : List Target × Span) : Prop :=
  a'.1 = a.1.map w.patch.target ∧ w.Ends a.2 a'.2

namespace Settled

variable (S : w.Settled)

include S in
theorem expression (h : w.At c c') (min : Nat) :
    w.Agree w.Same (expression min c) (expression min c') :=
  expression_agree (mirror S.sound _) h min

include S in
theorem entry (h : AtItem w c c') : w.Agree w.Patched (Script.expression 0 c) (Script.expression 0 c') :=
  entry_agree S.sound (mirror S.sound _) h

theorem exists_unsupported {α : Type} (c : Cursor) (feature : Feature) :
    ∃ e, (c.unsupported feature : Parse α) = .error e := by
  unfold Cursor.unsupported
  split <;> exact ⟨_, rfl⟩

theorem ends_of_same {e e' : Expr} (h : w.Same e e') : w.Ends e.span e'.span := by
  rw [h.1, Patch.span_expr h.2]
  rfl

/-! ### Targets -/

include S in
/-- The indices of a target agree. -/
theorem indices {c c' : Cursor} (h : w.Clear c c') {stop stop' : Span} (ends : w.Ends stop stop') :
    w.AgreeTo w.Clear w.SameIndices (indices stop c) (indices stop' c') := by
  rw [Script.indices, Script.indices]
  rcases S.punct? h.at .openBracket with ⟨none, none'⟩ | ⟨r, r', read, read', -, past⟩
  · rw [none, none']
    exact .ok ⟨rfl, ends⟩ h
  · rw [read, read']
    dsimp only
    have next := past.twin (by simp) (by simp)
    rcases S.punct? next .closeBracket with ⟨none, none'⟩ | ⟨q, q', read, read', token, past⟩
    · rw [none, none']
      refine (S.expression next 0).bind fun i i' same next ↦ ?_
      refine (S.expect next .closeBracket).bind fun q q' close past ↦ ?_
      have shorter : q.next.size < c.size :=
        Nat.lt_trans q.shorter (Nat.lt_trans i.shorter r.shorter)
      have clear := past.clear (by simp) (by simp) (by simp) (by simp)
      refine (indices clear (congrArg Span.stop close)).bind fun a a' more next ↦ ?_
      refine .ok ⟨?_, more.2⟩ next
      show some i'.value :: a'.value.1 = (some i.value :: a.value.1).map _
      rw [more.1, same.1]
      rfl
    · rw [read, read']
      have shorter : q.next.size < c.size := Nat.lt_trans q.shorter r.shorter
      have clear := past.clear (by simp) (by simp) (by simp) (by simp)
      refine (indices clear (congrArg (fun q : Token ↦ q.span.stop) token)).bind fun a a' more next ↦ ?_
      refine .ok ⟨?_, more.2⟩ next
      show none :: a'.value.1 = (none :: a.value.1).map _
      rw [more.1]
      rfl
termination_by c.size

include S in
/-- Targets agree. -/
theorem target (h : w.At c c') :
    w.AgreeTo w.Clear (fun t t' ↦ t' = w.patch.target t) (target c) (target c') := by
  rcases S.front h with ⟨s, s', rfl, rfl⟩ | ⟨s, t, ts, s', ts', rfl, rfl, -, past⟩
  · exact .error
  · obtain ⟨_, step⟩ := Cursor.advance_cons s t ts
    obtain ⟨_, step'⟩ := Cursor.advance_cons s' (w.patch.token t) ts'
    rw [Script.target, Script.target, step, step']
    simp only [ok_bind, Patch.kind_token, Patch.span_token]
    split
    · rename_i name kind
      have clear := past.clear (by simp [kind]) (by simp [kind]) (by simp [kind]) (by simp [kind])
      refine (S.indices clear (.move t.span)).bind fun a a' same next ↦ ?_
      refine .ok ?_ next
      show Target.mk _ _ _ = w.patch.target (Target.mk _ _ _)
      rw [Patch.target, same.1, same.2.through]
    · exact .error

include S in
/-- The targets of `unset` agree. -/
theorem unsetTargets {c c' : Cursor} (h : w.At c c') :
    w.Agree w.SameTargets (unsetTargets c) (unsetTargets c') := by
  rw [Script.unsetTargets, Script.unsetTargets]
  rcases S.punct? h .closeParen with ⟨none, none'⟩ | ⟨q, q', read, read', token, past⟩
  · rw [none, none']
    refine (S.target h).bind fun t t' same clear ↦ ?_
    have shorter := t.shorter
    rcases clear.at.punct?_comma with ⟨none, none'⟩ | loose | ⟨q, q', read, read', -, twin⟩
    · rw [none, none']
      refine (unsetTargets clear.at).bind fun a a' more next ↦ ?_
      refine .ok ⟨?_, more.2⟩ next
      show t'.value :: a'.value.1 = (t.value :: a.value.1).map _
      rw [more.1, same]
      rfl
    · exact absurd S.strict loose.1
    · rw [read, read']
      have shorter : q.next.size < c.size := Nat.lt_trans q.shorter t.shorter
      refine (unsetTargets (twin clear)).bind fun a a' more next ↦ ?_
      refine .ok ⟨?_, more.2⟩ next
      show t'.value :: a'.value.1 = (t.value :: a.value.1).map _
      rw [more.1, same]
      rfl
  · rw [read, read']
    exact .ok ⟨rfl, congrArg (fun q : Token ↦ q.span.stop) token⟩ (past.twin (by simp) (by simp))
termination_by c.size

/-! ### Statements -/

include S in
/-- Statements that load a file agree. -/
theorem load (h : w.At c c') (start : Span) (kind : IncludeKind) :
    w.Agree w.SameStmt (loadStatement start kind c) (loadStatement (w.patch.move start) kind c') := by
  rw [loadStatement, loadStatement]
  refine (S.expression h 0).bind fun e e' same next ↦ ?_
  refine (S.terminator next (ends_of_same same)).bind fun r r' ends next ↦ ?_
  refine .ok ?_ next
  show Stmt.load _ _ _ = w.patch.stmt (.load _ _ _)
  rw [Patch.stmt, ← ends.through, same.1]

include S in
/-- Statements that are expressions agree. -/
theorem expressionStatement (h : w.At c c') :
    w.Agree w.SameStmt (expressionStatement c) (expressionStatement c') := by
  rw [Script.expressionStatement, Script.expressionStatement]
  have whole := S.expression h 0
  rcases S.front h with ⟨s, s', rfl, rfl⟩ | ⟨s, t, ts, s', ts', rfl, rfl, -, -⟩
  · exact .error
  · obtain ⟨_, step⟩ := Cursor.advance_cons s t ts
    obtain ⟨_, step'⟩ := Cursor.advance_cons s' (w.patch.token t) ts'
    rw [step, step']
    refine whole.bind fun e e' same next ↦ ?_
    refine (S.terminator next (ends_of_same same)).bind fun r r' ends next ↦ ?_
    refine .ok ?_ next
    show Stmt.expr _ _ = w.patch.stmt (.expr _ _)
    rw [Patch.stmt, ← ends.through, same.1]
    rfl

include S in
/-- What may be an assignment. -/
theorem assignment (h : w.At c c') :
    ((∃ e, assignment? c = .error e) ∧ ∃ e, assignment? c' = .error e) ∨
      (assignment? c = .ok none ∧ assignment? c' = .ok none) ∨
      ∃ r r', assignment? c = .ok (some r) ∧ assignment? c' = .ok (some r') ∧
        w.SameStmt r.value r'.value ∧ w.At r.next r'.next := by
  rw [assignment?, assignment?]
  rcases S.agree_cases (S.target h) with
    ⟨e, e', fails, fails'⟩ | ⟨⟨t, d, lt⟩, ⟨t', d', lt'⟩, read, read', same, clear⟩
  · rw [fails, fails']
    exact .inl ⟨⟨_, rfl⟩, ⟨_, rfl⟩⟩
  rw [read, read']
  dsimp only at same clear
  simp only [ok_bind]
  rcases S.front clear.at with ⟨s, s', rfl, rfl⟩ | ⟨s, u, us, s', us', rfl, rfl, -, past⟩
  · exact .inr (.inl ⟨rfl, rfl⟩)
  obtain ⟨_, step⟩ := Cursor.advance_cons s u us
  obtain ⟨_, step'⟩ := Cursor.advance_cons s' (w.patch.token u) us'
  rw [step, step']
  have sameOp : assignOp? (w.patch.token u) = assignOp? u := rfl
  simp only [sameOp]
  cases hop : assignOp? u with
  | none => exact .inr (.inl ⟨rfl, rfl⟩)
  | some op =>
    dsimp only
    -- A reference is told by an ampersand, with which no expression at a hole begins.
    have mark : (Cursor.mk (w.patch.move u.span) us').atPunct .ampersand =
        (Cursor.mk u.span us).atPunct .ampersand := by
      rcases past.item with twin | hole
      · exact S.atPunct twin _
      · obtain ⟨_, _, _, _, read, read', -, -⟩ := S.sound hole default default
        obtain ⟨t, ts, rfl, ht⟩ := begins_of_yields read
        obtain ⟨t', ts', rfl, ht'⟩ := begins_of_yields read'
        have first := unpacks_of_begins ht
        have second := unpacks_of_begins ht'
        simp only [unpacks, Bool.or_eq_false_iff] at first second
        rw [Cursor.atPunct_cons, Cursor.atPunct_cons, first.2, second.2]
    rw [Patch.span_token, mark]
    split
    · exact .inl ⟨exists_unsupported _ _, exists_unsupported _ _⟩
    rcases S.agree_cases (S.entry past.item) with
      ⟨e, e', fails, fails'⟩ | ⟨v, v', read, read', value, next⟩
    · rw [fails, fails']
      exact .inl ⟨⟨_, rfl⟩, ⟨_, rfl⟩⟩
    rw [read, read']
    simp only [ok_bind]
    rcases S.agree_cases (S.terminator next value.2) with
      ⟨e, e', fails, fails'⟩ | ⟨r, r', read, read', ends, next⟩
    · rw [fails, fails']
      exact .inl ⟨⟨_, rfl⟩, ⟨_, rfl⟩⟩
    rw [read, read']
    refine .inr (.inr ⟨_, _, rfl, rfl, ?_, next⟩)
    show Stmt.assign (t'.span.through r'.value) op t' v'.value =
      w.patch.stmt (.assign (t.span.through r.value) op t v.value)
    rw [Patch.stmt, ← ends.through, value.1, same]
    rfl

/-- Behind the first token of an expression stands no equals sign. -/
theorem kind_ne_assign {us rest : List Token} {t u : Token} {ts : List Token} (enclosed : Enclosed us)
    (some : us ≠ []) (ends : rest.head?.any endsValue) (h : us ++ rest = t :: u :: ts) :
    u.kind ≠ .punct .assign := by
  intro hk
  match us, some with
  | [v], _ =>
    obtain ⟨rfl, rfl⟩ := List.cons.inj h
    simp [endsValue, hk] at ends
  | v :: x :: us, _ =>
    obtain ⟨rfl, tail⟩ := List.cons.inj h
    obtain ⟨rfl, -⟩ := List.cons.inj tail
    have plain := enclosed.isPlain_of (t := x) (by simp) fun p hp ↦ by
      rw [hk] at hp
      cases hp
      decide
    simp [isPlain, hk] at plain

/-- Where an expression stands, there are no names to declare. -/
theorem constItems_of_enclosed {s : Span} {us rest : List Token} (enclosed : Enclosed us)
    (some : us ≠ []) (ends : rest.head?.any endsValue) :
    ∃ e, constItems ⟨s, us ++ rest⟩ = .error e := by
  obtain ⟨t, ts, all⟩ := List.exists_cons_of_ne_nil (List.append_ne_nil_of_left_ne_nil some rest)
  rw [all, constItems]
  obtain ⟨_, step⟩ := Cursor.advance_cons s t ts
  rw [step]
  simp only [ok_bind]
  split
  · cases ts with
    | nil => exact ⟨_, rfl⟩
    | cons u ts =>
      obtain ⟨e, fails⟩ := expect_of_ne (s := t.span) (r := ts) (kind_ne_assign enclosed some ends all)
      rw [fails]
      exact ⟨_, rfl⟩
  · exact ⟨_, rfl⟩

include S in
/-- Declared constants agree, also with the hole next. -/
theorem constItems {c c' : Cursor} (h : AtItem w c c') :
    w.Agree (fun is is' ↦ is' = is.map w.patch.constItem) (constItems c) (constItems c') := by
  rcases h with h | hole
  · rcases S.front h with ⟨s, s', rfl, rfl⟩ | ⟨s, t, ts, s', ts', rfl, rfl, -, past⟩
    · rw [Script.constItems, Script.constItems]
      exact .error
    obtain ⟨h₁, step⟩ := Cursor.advance_cons s t ts
    obtain ⟨h₂, step'⟩ := Cursor.advance_cons s' (w.patch.token t) ts'
    rw [Script.constItems, Script.constItems, step, step']
    simp only [ok_bind, Patch.kind_token, Patch.span_token]
    split
    · rename_i name kind
      have next := past.twin (by simp [kind]) (by simp [kind])
      refine (S.expect next .assign).bind fun q q' _ past ↦ ?_
      refine (S.entry past.item).bind fun v v' value next ↦ ?_
      rcases next.punct?_comma with ⟨none, none'⟩ | loose | ⟨r, r', read, read', item, -⟩
      · rw [none, none']
        refine .ok ?_ next
        show [ConstItem.mk _ _ _] = [w.patch.constItem (ConstItem.mk _ _ _)]
        rw [Patch.constItem, value.1]
      · exact absurd S.strict loose.1
      · rw [read, read']
        have shorter : r.next.size < (Cursor.mk s (t :: ts)).size :=
          Nat.lt_trans r.shorter (Nat.lt_trans v.shorter (Nat.lt_trans q.shorter h₁))
        refine (constItems item).bind fun a a' more next ↦ ?_
        refine .ok ?_ next
        show ConstItem.mk _ _ _ :: a'.value = w.patch.constItem (ConstItem.mk _ _ _) :: a.value.map _
        rw [more, Patch.constItem, value.1]
    · exact .error
  · obtain ⟨us, rest, us', rest', hts, hts', some, some', enclosed, enclosed', ends, ends', -⟩ :=
      S.closed hole
    obtain ⟨s, ts⟩ := c
    obtain ⟨s', ts'⟩ := c'
    dsimp only at hts hts'
    subst hts hts'
    exact .errors (constItems_of_enclosed enclosed some ends)
      (constItems_of_enclosed enclosed' some' ends')
termination_by c.size

include S in
/-- Declarations of constants agree. -/
theorem const (h : w.At c c') (start : Span) :
    w.Agree w.SameStmt (constStatement start c) (constStatement (w.patch.move start) c') := by
  rw [constStatement, constStatement]
  refine (S.constItems (.inl h)).bind fun a a' same next ↦ ?_
  refine (S.terminator next next.last).bind fun r r' ends next ↦ ?_
  refine .ok ?_ next
  show Stmt.const _ _ = w.patch.stmt (.const _ _)
  rw [Patch.stmt, ← ends.through, same]

include S in
/-- Statements that unset targets agree. -/
theorem unset (h : w.At c c') (start : Span) :
    w.Agree w.SameStmt (unsetStatement start c) (unsetStatement (w.patch.move start) c') := by
  rw [unsetStatement, unsetStatement]
  refine (S.expect h .openParen).bind fun q q' _ past ↦ ?_
  refine (S.unsetTargets (past.twin (by simp) (by simp))).bind fun a a' same next ↦ ?_
  refine (S.terminator next same.2).bind fun r r' ends next ↦ ?_
  refine .ok ?_ next
  show Stmt.unset ((w.patch.move start).through r'.value) a'.value.1 =
    w.patch.stmt (.unset (start.through r.value) a.value.1)
  rw [Patch.stmt, ← ends.through, same.1]

include S in
/-- The names of `global` agree. -/
theorem globalNames {c c' : Cursor} (h : w.At c c') :
    w.Agree (fun ns ns' ↦ ns' = ns) (globalNames c) (globalNames c') := by
  rw [Script.globalNames, Script.globalNames]
  rcases S.front h with ⟨s, s', rfl, rfl⟩ | ⟨s, t, ts, s', ts', rfl, rfl, -, past⟩
  · exact .error
  obtain ⟨h₁, step⟩ := Cursor.advance_cons s t ts
  obtain ⟨h₂, step'⟩ := Cursor.advance_cons s' (w.patch.token t) ts'
  rw [step, step']
  simp only [ok_bind, Patch.kind_token, Patch.span_token]
  split
  · rename_i name kind
    have clear := past.clear (by simp [kind]) (by simp [kind]) (by simp [kind]) (by simp [kind])
    rcases clear.at.punct?_comma with ⟨none, none'⟩ | loose | ⟨r, r', read, read', -, twin⟩
    · rw [none, none']
      exact .ok rfl clear.at
    · exact absurd S.strict loose.1
    · rw [read, read']
      have shorter : r.next.size < (Cursor.mk s (t :: ts)).size := Nat.lt_trans r.shorter h₁
      refine (globalNames (twin clear)).bind fun a a' more next ↦ ?_
      refine .ok ?_ next
      show name :: a'.value = name :: a.value
      rw [more]
  · exact .error
termination_by c.size

include S in
/-- Statements that declare globals agree. -/
theorem global (h : w.At c c') (start : Span) :
    w.Agree w.SameStmt (globalStatement start c) (globalStatement (w.patch.move start) c') := by
  rw [globalStatement, globalStatement]
  refine (S.globalNames h).bind fun a a' same next ↦ ?_
  refine (S.terminator next next.last).bind fun r r' ends next ↦ ?_
  refine .ok ?_ next
  show Stmt.global _ _ = w.patch.stmt (.global _ _)
  rw [Patch.stmt, ← ends.through, same]

include S in
/-- Statements that end the script agree. -/
theorem ending (h : w.At c c') (start : Span) {stmt : Span → Stmt}
    (bare : ∀ s, w.patch.stmt (stmt s) = stmt (w.patch.move s)) :
    w.Agree w.SameStmt (endingStatement start stmt c)
      (endingStatement (w.patch.move start) stmt c') := by
  have same : atStatementEnd c' = atStatementEnd c := by
    rw [atStatementEnd, atStatementEnd, S.current? h]
    cases c.current? <;> rfl
  rw [endingStatement, endingStatement, same]
  split
  · refine (S.terminator h (.move start)).bind fun r r' ends next ↦ ?_
    refine .ok ?_ next
    show stmt _ = w.patch.stmt (stmt _)
    rw [bare, ← ends.through]
  · refine (S.expression h 0).bind fun e e' same next ↦ ?_
    refine (S.terminator next next.last).bind fun r r' ends next ↦ ?_
    refine .ok ?_ next
    show stmt _ = w.patch.stmt (stmt _)
    rw [bare, ← ends.through]

theorem agree_peeked {α α' : Type} {n n' : Nat} {R : α → α' → Prop} {x : Parse (Read α n)}
    {x' : Parse (Read α' n')} (h : w.Agree R x x') :
    w.Agree R (x.map Read.peeked) (x'.map Read.peeked) := by
  cases x <;> cases x' <;> exact h

include S in
/-- What a word begins. -/
theorem word (h : w.At c c') (word : String) (t : Token) :
    (wordStatement? word t c = none ∧ wordStatement? word (w.patch.token t) c' = none) ∨
      ∃ x x', wordStatement? word t c = some x ∧ wordStatement? word (w.patch.token t) c' = some x' ∧
        w.Agree w.SameStmt x x' := by
  rw [wordStatement?, wordStatement?]
  dsimp only
  split
  · exact .inr ⟨_, _, rfl, rfl, agree_peeked (S.load h _ _)⟩
  split
  · exact .inr ⟨_, _, rfl, rfl, agree_peeked (S.const h _)⟩
  split
  · exact .inr ⟨_, _, rfl, rfl, agree_peeked (S.unset h _)⟩
  split
  · exact .inr ⟨_, _, rfl, rfl, agree_peeked (S.global h _)⟩
  split
  · exact .inr ⟨_, _, rfl, rfl, S.ending h _ fun _ ↦ by rw [Patch.stmt]⟩
  split
  · exact .inr ⟨_, _, rfl, rfl, S.ending h _ fun _ ↦ by rw [Patch.stmt]⟩
  split
  · exact .inr ⟨_, _, rfl, rfl, .error⟩
  · exact .inl ⟨rfl, rfl⟩

end Settled

/-! ### Skipping -/

/-- What skipping yields in both texts. -/
def SameEnd (w : Twinning) (x x' : Parse Cursor) : Prop :=
  ((∃ e, x = .error e) ∧ ∃ e, x' = .error e) ∨ ∃ d d', x = .ok d ∧ x' = .ok d' ∧ w.At d d'

namespace Settled

variable (S : w.Settled)

include S in
theorem continuesBlock (h : w.At c c') : continuesBlock c' = continuesBlock c := by
  rw [Script.continuesBlock, Script.continuesBlock, S.current? h]
  cases c.current? <;> rfl

include S in
/-- What is skipped ends at twins, or skipping fails in both texts. It goes over the hole as over any
expression, whose brackets are closed. -/
theorem skipped {c c' : Cursor} (h : AtItem w c c') (opened : List Token) :
    w.SameEnd (skipped opened c) (skipped (opened.map w.patch.token) c') := by
  -- At twins, skipping takes the same token in both texts. At a hole it goes over the whole expression,
  -- whose brackets are closed, and the cursors are twins again behind it.
  rcases h with h | hole
  · rcases S.front h with ⟨s, s', rfl, rfl⟩ | ⟨s, t, ts, s', ts', rfl, rfl, -, past⟩
    · rw [skipped_nil, skipped_nil]
      cases opened with
      | nil => exact .inr ⟨_, _, rfl, rfl, h⟩
      | cons => exact .inl ⟨⟨_, rfl⟩, ⟨_, rfl⟩⟩
    have shorter : (Cursor.mk t.span ts).size < (Cursor.mk s (t :: ts)).size := Nat.lt_succ_self _
    have go := skipped past.item
    have twin : ∀ {p}, t.isPunct p → p ≠ .comma → p ≠ .assign →
        w.At ⟨t.span, ts⟩ ⟨w.patch.move t.span, ts'⟩ := by
      intro p is comma assign
      rw [Token.isPunct, beq_iff_eq] at is
      exact past.twin (by simp [is, comma]) (by simp [is, assign])
    have opens' : opensBracket (w.patch.token t) = opensBracket t := rfl
    have closes' : closesBracket (w.patch.token t) = closesBracket t := rfl
    rw [skipped_cons, skipped_cons, opens', closes', Patch.isPunct_token, Patch.kind_token]
    split
    · exact go (t :: opened)
    cases opened with
    | nil =>
      dsimp only [List.map_nil]
      split
      · rename_i is
        exact .inr ⟨_, _, rfl, rfl, twin is (by simp) (by simp)⟩
      split
      · exact .inr ⟨_, _, rfl, rfl, h⟩
      · exact go []
    | cons opener outer =>
      rw [List.map_cons]
      dsimp only
      split
      · exact go (opener :: outer)
      rename_i inside
      have closes : closesBracket t := by simpa using inside
      have here : w.At ⟨t.span, ts⟩ ⟨w.patch.move t.span, ts'⟩ := by
        rw [closesBracket, Bool.or_eq_true, Bool.or_eq_true] at closes
        rcases closes with (is | is) | is <;> exact twin is (by simp) (by simp)
      have same : (outer.map w.patch.token).isEmpty = outer.isEmpty := by cases outer <;> rfl
      rw [same, Patch.isPunct_token, Patch.span_token, S.continuesBlock here]
      split
      · exact .inr ⟨_, _, rfl, rfl, here⟩
      · exact go outer
  · obtain ⟨us, rest, us', rest', hts, hts', some, -, enclosed, enclosed', -, -, twin⟩ :=
      S.closed hole
    have shorter : (Cursor.mk (lastSpan c.last us) rest).size < c.size := by
      have := List.length_pos_iff.2 some
      simp only [Cursor.size, hts, List.length_append]
      omega
    have shape : c = ⟨c.last, us ++ rest⟩ := by rw [← hts]
    have shape' : c' = ⟨c'.last, us' ++ rest'⟩ := by rw [← hts']
    rw [shape, shape', skipped_enclosed enclosed, skipped_enclosed enclosed']
    exact skipped (.inl (twin c.last c'.last)) opened
termination_by c.size

include S in
/-- Statements that are skipped agree. -/
theorem opaqueStatement (h : w.At c c') :
    w.Agree w.SameStmt (opaqueStatement c) (opaqueStatement c') := by
  rcases S.front h with ⟨s, s', rfl, rfl⟩ | ⟨s, t, ts, s', ts', rfl, rfl, -, past⟩
  · exact .error
  obtain ⟨h₁, step⟩ := Cursor.advance_cons s t ts
  obtain ⟨h₂, step'⟩ := Cursor.advance_cons s' (w.patch.token t) ts'
  have opens' : opensBracket (w.patch.token t) = opensBracket t := rfl
  have closes' : closesBracket (w.patch.token t) = closesBracket t := rfl
  rw [Script.opaqueStatement, Script.opaqueStatement, step, step']
  simp only [ok_bind, opens', closes', Patch.span_token]
  split
  · exact .error
  have same := S.skipped past.item (if opensBracket t then [t] else [])
  have list : (if opensBracket t then [t] else []).map w.patch.token =
      if opensBracket t then [w.patch.token t] else [] := by
    split <;> rfl
  rw [list, Script.skipped, Script.skipped] at same
  revert same
  cases skipRest (if opensBracket t then [t] else []) ⟨t.span, ts⟩ <;>
    cases skipRest (if opensBracket t then [w.patch.token t] else []) ⟨w.patch.move t.span, ts'⟩ <;>
    intro same
  · exact .error
  · obtain ⟨-, e, same⟩ | ⟨_, _, same, -⟩ := same <;> cases same
  · obtain ⟨⟨e, same⟩, -⟩ | ⟨_, _, -, same, -⟩ := same <;> cases same
  · rename_i r r'
    obtain ⟨⟨e, same⟩, -⟩ | ⟨d, d', same, same', twin⟩ := same
    · cases same
    obtain rfl := Except.ok.inj same
    obtain rfl := Except.ok.inj same'
    refine .ok ?_ twin
    show Stmt.opaqueStmt ((w.patch.move t.span).through r'.next.last) =
      w.patch.stmt (.opaqueStmt (t.span.through r.next.last))
    have ends : w.Ends r.next.last r'.next.last := twin.last
    rw [Patch.stmt, ends.through]

end Settled

end ConfigScript.Script.Twinning
