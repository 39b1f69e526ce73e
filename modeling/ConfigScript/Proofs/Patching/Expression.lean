import ConfigScript.Proofs.Patching.Cursor

/-!
# Expressions in two texts at once

The parser of expressions does the same at twin cursors. Every function of it agrees if those it calls
with fewer tokens do (`Mirror`), so all of them agree (`mirror`).
-/

namespace ConfigScript.Script.Twinning

variable (w : Twinning)

/-- An expression off the hole, and what the patch makes of it. -/
def Same (e e' : Expr) : Prop := e' = w.patch.expr e ∧ w.patch.Off e.span

/-- An expression, perhaps the one at the hole, and what the patch makes of it. -/
def Patched (e e' : Expr) : Prop :=
  e' = w.patch.expr e ∧ e'.span.stop = (w.patch.move e.span).stop

/-- At a hole both lists have an expression; the second one is the patched first one. -/
def Sound : Prop :=
  ∀ {ts ts' : List Token}, w.hole ts ts' → ∀ s s', ∃ e e' c c',
    Yields (expression 0 ⟨s, ts⟩) e c ∧ Yields (expression 0 ⟨s', ts'⟩) e' c' ∧ w.Patched e e' ∧
      w.At c c'

/-- Arguments with their end. -/
def SameArgs (a a' : List Expr × Span) : Prop :=
  a'.1 = w.patch.exprs a.1 ∧ a'.2 = w.patch.move a.2

/-- Elements of an array literal with their end. -/
def SameItems (a a' : List Item × Span) : Prop :=
  a'.1 = w.patch.items a.1 ∧ a'.2 = w.patch.move a.2

/-- The parser of expressions agrees with fewer than `n` tokens ahead. -/
structure Mirror (n : Nat) : Prop where
  expression : ∀ {c c' : Cursor} (min : Nat), w.At c c' → c.size < n →
    w.Agree w.Same (expression min c) (expression min c')
  operators : ∀ {c c' : Cursor} (min : Nat) {e : Expr}, w.At c c' → c.size < n →
    w.patch.Off e.span → w.Agree w.Same (operators min e c) (operators min (w.patch.expr e) c')
  suffixes : ∀ {c c' : Cursor} {e : Expr}, w.At c c' → c.size < n → w.patch.Off e.span →
    w.Agree w.Same (suffixes e c) (suffixes (w.patch.expr e) c')
  arguments : ∀ {c c' : Cursor}, AtItem w c c' → c.size < n →
    w.Agree w.SameArgs (arguments c) (arguments c')
  items : ∀ {c c' : Cursor} {p : Punct}, p = .closeParen ∨ p = .closeBracket → AtItem w c c' →
    c.size < n → w.Agree w.SameItems (items p c) (items p c')

variable {w} {c c' : Cursor}

theorem Same.patched {e e' : Expr} (h : w.Same e e') : w.Patched e e' :=
  ⟨h.1, by rw [h.1, Patch.span_expr h.2]⟩

/-- What agrees below a bound agrees below each smaller one. -/
theorem Mirror.mono {m n : Nat} (h : w.Mirror n) (le : m ≤ n) : w.Mirror m where
  expression min at' lt := h.expression min at' (Nat.lt_of_lt_of_le lt le)
  operators min _ at' lt := h.operators min at' (Nat.lt_of_lt_of_le lt le)
  suffixes at' lt := h.suffixes at' (Nat.lt_of_lt_of_le lt le)
  arguments at' lt := h.arguments at' (Nat.lt_of_lt_of_le lt le)
  items hp at' lt := h.items hp at' (Nat.lt_of_lt_of_le lt le)

/-! ### Behind an operand -/

/-- Calls behind a name agree. -/
theorem callSuffix_agree (ih : w.Mirror c.size) (h : w.At c c') (last : Span) :
    w.Agree (fun s s' ↦ s' = w.patch.move s) (callSuffix last c)
      (callSuffix (w.patch.move last) c') := by
  rw [callSuffix, callSuffix]
  rcases h.punct? (p := .openParen) rfl with ⟨none, none'⟩ | ⟨r, r', some, some', -, -, next⟩
  · rw [none, none']
    exact .ok rfl h
  · rw [some, some']
    refine (ih.arguments (.inl next) r.shorter).bind fun a a' value next ↦ ?_
    exact .ok value.2 next

/-- What goes on behind an operand is a bracket, an arrow, a double colon, a parenthesis or a step. -/
theorem kind_of_endsOperand_eq_false {t : Token} (h : endsOperand t = false) :
    t.kind = .punct .openBracket ∨ (t.kind = .punct .arrow ∨ t.kind = .punct .nullsafeArrow) ∨
      t.kind = .punct .doubleColon ∨ t.kind = .punct .openParen ∨ t.kind = .punct .increment ∨
      t.kind = .punct .decrement := by
  unfold endsOperand at h
  split at h <;> simp_all

/-- What is kept of an opaque expression moves. -/
theorem same_opaqueExpr {start : Span} (off : w.patch.Off start) (stop : Span) :
    w.Same (.opaqueExpr (start.through stop))
      (.opaqueExpr ((w.patch.move start).through (w.patch.move stop))) := by
  refine ⟨?_, off⟩
  rw [Patch.expr, Patch.put_of_off (off.through _), w.patch.move_through]

/-- The name of a member and what it is called with, in front of anything that agrees. -/
theorem memberName_agree {α α' : Type} {n n' : Nat} {N : Cursor → Cursor → Prop} {R : α → α' → Prop}
    {more : (m : Read Token c.size) → Peeked Span m.next.size → Parse (Read α n)}
    {more' : (m : Read Token c'.size) → Peeked Span m.next.size → Parse (Read α' n')}
    {other : Read Token c.size → Misfit} {other' : Read Token c'.size → Misfit}
    (ih : w.Mirror c.size) (h : w.At c c')
    (rest : ∀ m s m' s', s'.value = w.patch.move s.value → w.At s.next s'.next →
      w.AgreeTo N R (more m s) (more' m' s')) :
    w.AgreeTo N R
      (c.advance >>= fun m ↦
        if isMemberName m.value then callSuffix m.value.span m.next >>= more m else .error (other m))
      (c'.advance >>= fun m ↦
        if isMemberName m.value then callSuffix m.value.span m.next >>= more' m
        else .error (other' m)) := by
  rcases h.cases with ⟨s, s', rfl, rfl⟩ | ⟨s, t, ts, s', ts', rfl, rfl, off, next, -⟩ |
    ⟨s, t, ts, s', t', ts', rfl, rfl, stop, stop'⟩
  · exact .error
  · obtain ⟨h₁, step⟩ := Cursor.advance_cons s t ts
    obtain ⟨h₂, step'⟩ := Cursor.advance_cons s' (w.patch.token t) ts'
    rw [step, step']
    show w.AgreeTo N R (if isMemberName t then _ else _) (if isMemberName t then _ else _)
    split
    · refine (callSuffix_agree (ih.mono (Nat.le_of_lt h₁)) next t.span).bind fun r r' value next ↦ ?_
      exact rest ⟨t, _, h₁⟩ r ⟨_, _, h₂⟩ r' value next
    · exact .error
  · obtain ⟨h₁, step⟩ := Cursor.advance_cons s t ts
    obtain ⟨h₂, step'⟩ := Cursor.advance_cons s' t' ts'
    rw [step, step']
    simp only [bind, Except.bind, isMemberName_of_isStop stop, isMemberName_of_isStop stop',
      Bool.false_eq_true, if_false]
    exact .error

/-- Members agree. -/
theorem member_agree (ih : w.Mirror c.size) (h : w.At c c') {start : Span}
    (off : w.patch.Off start) :
    w.Agree w.Same (member start c) (member (w.patch.move start) c') := by
  rw [member, member]
  refine memberName_agree ih h fun m s m' s' value next ↦ ?_
  refine .ok ?_ next
  show w.Same (.opaqueExpr (start.through s.value)) (.opaqueExpr _)
  rw [value]
  exact same_opaqueExpr off _

/-- What `new` creates agrees. -/
theorem creation_agree (ih : w.Mirror c.size) (h : w.At c c') {start : Span}
    (off : w.patch.Off start) :
    w.Agree w.Same (creation start c) (creation (w.patch.move start) c') := by
  rw [creation, creation]
  refine memberName_agree ih h fun m s m' s' value next ↦ ?_
  refine .ok ?_ next
  show w.Same (.opaqueExpr (start.through s.value)) (.opaqueExpr _)
  rw [value]
  exact same_opaqueExpr off _

/-- The suffixes of an operand agree: the same one follows in both texts, and behind it they agree with
fewer tokens ahead. -/
theorem suffixes_agree (ih : w.Mirror c.size) (h : w.At c c') {e : Expr} (off : w.patch.Off e.span) :
    w.Agree w.Same (suffixes e c) (suffixes (w.patch.expr e) c') := by
  -- Nothing is ahead, or the same token, or a token in each text where expressions stop.
  rcases h.cases with ⟨s, s', rfl, rfl⟩ | ⟨s, t, ts, s', ts', rfl, rfl, offT, more, -⟩ |
    ⟨s, t, ts, s', t', ts', rfl, rfl, stop, stop'⟩
  · rw [suffixes, suffixes]
    exact .ok ⟨rfl, off⟩ h
  · cases hends : endsOperand t with
    | true =>
      obtain ⟨_, stay⟩ := suffixes_of_ends (e := e) (s := s) (r := ts) hends
      obtain ⟨_, stay'⟩ := suffixes_of_ends (e := w.patch.expr e) (s := s')
        (t := w.patch.token t) (r := ts') hends
      rw [stay, stay']
      exact .ok ⟨rfl, off⟩ h
    | false =>
      obtain ⟨h₁, step⟩ := Cursor.advance_cons s t ts
      obtain ⟨h₂, step'⟩ := Cursor.advance_cons s' (w.patch.token t) ts'
      have span' := Patch.span_expr off
      rw [suffixes, suffixes, step, step']
      rcases kind_of_endsOperand_eq_false hends with hk | hk | hk | hk | hk
      · simp only [Patch.kind_token, Patch.span_token, hk, more.atPunct (p := .closeBracket) rfl]
        split
        · exact .error
        · refine (ih.expression 0 more h₁).bind fun i i' same next ↦ ?_
          refine (next.expect (.inr (.inl rfl))).bind fun r r' close next ↦ ?_
          have index : w.patch.expr (.index (e.span.through r.value) e i.value) =
              .index ((w.patch.expr e).span.through r'.value) (w.patch.expr e) i'.value := by
            rw [Patch.expr, Patch.put_of_off (off.through _), w.patch.move_through, span', close,
              same.1]
          rw [← index]
          have lt : r.next.size < (Cursor.mk s (t :: ts)).size :=
            Nat.lt_trans (Nat.lt_trans r.shorter i.shorter) h₁
          refine (ih.suffixes (e := .index _ e i.value) next lt (off.through _)).bind
            fun _ _ same next ↦ ?_
          exact .ok same next
      · rcases hk with hk | hk <;> simp only [Patch.kind_token, Patch.span_token, hk] <;>
          refine memberName_agree (ih.mono (Nat.le_of_lt h₁)) more fun m r m' r' value next ↦ ?_
        all_goals
          have access := same_opaqueExpr off r.value
          rw [value, span', access.1]
          have lt : r.next.size < (Cursor.mk s (t :: ts)).size :=
            Nat.lt_trans (Nat.lt_of_le_of_lt (Nat.le_of_lt_succ r.shorter) m.shorter) h₁
          refine (ih.suffixes next lt access.2).bind fun _ _ same next ↦ ?_
          exact .ok same next
      · simp only [Patch.kind_token, Patch.span_token, hk]
        rw [span']
        refine (member_agree (ih.mono (Nat.le_of_lt h₁)) more off).bind fun m m' same next ↦ ?_
        rw [same.1]
        refine (ih.suffixes next (Nat.lt_trans m.shorter h₁) same.2).bind fun _ _ same next ↦ ?_
        exact .ok same next
      · simp only [Patch.kind_token, Patch.span_token, hk]
        refine (ih.arguments (.inl more) h₁).bind fun a a' same next ↦ ?_
        have call := same_opaqueExpr off a.value.2
        rw [same.2, span', call.1]
        refine (ih.suffixes next (Nat.lt_trans a.shorter h₁) call.2).bind fun _ _ same next ↦ ?_
        exact .ok same next
      · rcases hk with hk | hk <;> simp only [Patch.kind_token, hk] <;> exact .error
  · obtain ⟨_, stay⟩ := suffixes_of_ends (e := e) (s := s) (r := ts) (endsOperand_of_isStop stop)
    obtain ⟨_, stay'⟩ := suffixes_of_ends (e := w.patch.expr e) (s := s') (r := ts')
      (endsOperand_of_isStop stop')
    rw [stay, stay']
    exact .ok ⟨rfl, off⟩ h

/-! ### Operators -/

/-- The same binary operator is ahead at twins, or none that binds as tightly as asked for. -/
theorem At.binary? (h : w.At c c') (min : Nat) :
    (Script.binary? min c = none ∧ Script.binary? min c' = none) ∨
      ∃ o o', Script.binary? min c = some o ∧ Script.binary? min c' = some o' ∧ o'.value = o.value ∧
        w.At o.next o'.next := by
  have none_of_stop : ∀ {s : Span} {t : Token} {ts : List Token}, isStop t →
      Script.binary? min ⟨s, t :: ts⟩ = none := by
    intro s t ts stop
    have ends := ends_of_isStop stop
    simp only [endsExpression, Bool.and_eq_true, Option.isNone_iff_eq_none] at ends
    simp [Script.binary?, ends.2]
  rcases h.cases with ⟨s, s', rfl, rfl⟩ | ⟨s, t, ts, s', ts', rfl, rfl, off, next, -⟩ |
    ⟨s, t, ts, s', t', ts', rfl, rfl, stop, stop'⟩
  · exact .inl ⟨rfl, rfl⟩
  · have same : operator? (w.patch.token t) = operator? t := rfl
    cases ho : operator? t with
    | none => exact .inl ⟨by simp [Script.binary?, ho], by simp [Script.binary?, same, ho]⟩
    | some o =>
      by_cases weak : o.leftBinding < min
      · exact .inl ⟨by simp [Script.binary?, ho, weak], by simp [Script.binary?, same, ho, weak]⟩
      · refine .inr ⟨⟨o, ⟨t.span, ts⟩, Nat.lt_succ_self _⟩,
          ⟨o, ⟨w.patch.move t.span, ts'⟩, Nat.lt_succ_self _⟩, ?_, ?_, rfl, next⟩
        · simp [Script.binary?, ho, weak]
        · simp [Script.binary?, same, ho, weak]
  · exact .inl ⟨none_of_stop stop, none_of_stop stop'⟩

/-- The operators behind an operand agree: a conditional, a binary operator, or none, in both texts. -/
theorem operators_agree (ih : w.Mirror c.size) (h : w.At c c') (min : Nat) {lhs : Expr}
    (off : w.patch.Off lhs.span) :
    w.Agree w.Same (operators min lhs c) (operators min (w.patch.expr lhs) c') := by
  have span' := Patch.span_expr off
  rw [operators, operators]
  -- A question mark goes first, as the parser asks for it first.
  rcases h.punct? (p := .question) rfl with ⟨none, none'⟩ | ⟨q, q', some, some', -, -, next⟩
  · rw [none, none']
    rcases h.binary? min with ⟨none, none'⟩ | ⟨o, o', some, some', same, next⟩
    · rw [none, none']
      exact .ok ⟨rfl, off⟩ h
    · rw [some, some']
      dsimp only
      rw [same]
      refine (ih.expression _ next o.shorter).bind fun r r' right next ↦ ?_
      have whole : w.patch.expr (.binary (lhs.span.through r.value.span) o.value.op lhs r.value) =
          .binary ((w.patch.expr lhs).span.through r'.value.span) o.value.op (w.patch.expr lhs)
            r'.value := by
        rw [Patch.expr, Patch.put_of_off (off.through _), w.patch.move_through, span', right.1,
          Patch.span_expr right.2]
      rw [← whole]
      refine (ih.operators (e := .binary _ _ lhs r.value) min next
        (Nat.lt_trans r.shorter o.shorter) (off.through _)).bind fun _ _ same next ↦ ?_
      exact .ok same next
  · rw [some, some']
    dsimp only
    split
    · exact .ok ⟨rfl, off⟩ h
    · rcases next.punct? (p := .colon) rfl with
        ⟨none, none'⟩ | ⟨colon, colon', some, some', -, -, next⟩
      · rw [none, none']
        refine (ih.expression 0 next q.shorter).bind fun a a' chosen next ↦ ?_
        refine (next.expect (.inr (.inr (.inl rfl)))).bind fun colon colon' _ next ↦ ?_
        have lt : colon.next.size < c.size :=
          Nat.lt_trans colon.shorter (Nat.lt_trans a.shorter q.shorter)
        refine (ih.expression _ next lt).bind fun b b' other next ↦ ?_
        have whole : w.patch.expr
            (.ternary (lhs.span.through b.value.span) lhs a.value b.value) =
            .ternary ((w.patch.expr lhs).span.through b'.value.span) (w.patch.expr lhs) a'.value
              b'.value := by
          rw [Patch.expr, Patch.put_of_off (off.through _), w.patch.move_through, span', chosen.1,
            other.1, Patch.span_expr other.2]
        rw [← whole]
        refine (ih.operators (e := .ternary _ lhs a.value b.value) min next
          (Nat.lt_trans b.shorter lt) (off.through _)).bind fun _ _ same next ↦ ?_
        exact .ok same next
      · rw [some, some']
        have lt : colon.next.size < c.size := Nat.lt_trans colon.shorter q.shorter
        refine (ih.expression _ next lt).bind fun b b' other next ↦ ?_
        have whole : w.patch.expr (.elvis (lhs.span.through b.value.span) lhs b.value) =
            .elvis ((w.patch.expr lhs).span.through b'.value.span) (w.patch.expr lhs) b'.value := by
          rw [Patch.expr, Patch.put_of_off (off.through _), w.patch.move_through, span', other.1,
            Patch.span_expr other.2]
        rw [← whole]
        refine (ih.operators (e := .elvis _ lhs b.value) min next
          (Nat.lt_trans b.shorter lt) (off.through _)).bind fun _ _ same next ↦ ?_
        exact .ok same next

/-! ### Operands -/

theorem literal?_token {t : Token} {e : Expr} (off : w.patch.Off t.span) (h : literal? t = some e) :
    literal? (w.patch.token t) = some (w.patch.expr e) ∧ w.patch.Off e.span := by
  revert h
  simp only [literal?, Patch.kind_token, Patch.span_token]
  split <;> intro h <;> cases h <;> exact ⟨by rw [Patch.expr, Patch.put_of_off off], off⟩

theorem literal?_token_eq_none {t : Token} (h : literal? t = none) :
    literal? (w.patch.token t) = none := by
  revert h
  simp only [literal?, Patch.kind_token, Patch.span_token]
  split <;> intro h <;> first | rfl | cases h

/-- A word that is a literal is the same one where it moves to. -/
theorem wordLiteral?_move {word : String} {call : Bool} {s : Span} {e : Expr}
    (off : w.patch.Off s) (h : wordLiteral? word call s = some e) :
    wordLiteral? word call (w.patch.move s) = some (w.patch.expr e) ∧ w.patch.Off e.span := by
  revert h
  unfold wordLiteral?
  split <;> intro h <;> cases h <;> exact ⟨by rw [Patch.expr, Patch.put_of_off off], off⟩

theorem wordLiteral?_eq_none {word : String} {call : Bool} {s : Span}
    (h : wordLiteral? word call s = none) (s' : Span) : wordLiteral? word call s' = none := by
  revert h
  unfold wordLiteral?
  split <;> intro h <;> first | rfl | cases h

/-- What begins with a name agrees. That name is the same in both texts, and so are the tokens behind it
that tell a call from a constant. -/
theorem named_agree (ih : w.Mirror c.size) (h : w.At c c') (name : String) {t : Token}
    (off : w.patch.Off t.span) :
    w.Agree w.Same (named name t c) (named name (w.patch.token t) c') := by
  rw [named, named, h.atPunct (p := .openParen) rfl]
  dsimp only
  cases hword : wordLiteral? (String.ofList (lower name.toList)) (c.atPunct .openParen) t.span with
  | some e =>
    obtain ⟨moved, offE⟩ := wordLiteral?_move off hword
    rw [Patch.span_token, moved]
    exact .ok ⟨rfl, offE⟩ h
  | none =>
    rw [Patch.span_token, wordLiteral?_eq_none hword]
    dsimp only
    split
    · exact creation_agree ih h off
    split
    · exact .error
    rcases h.punct? (p := .openParen) rfl with ⟨none, none'⟩ | ⟨r, r', some, some', -, -, next⟩
    · rw [none, none']
      rcases h.punct? (p := .doubleColon) rfl with ⟨none, none'⟩ | ⟨r, r', some, some', -, -, next⟩
      · rw [none, none']
        refine .ok ⟨?_, off⟩ h
        show Expr.const _ name = w.patch.expr (.const _ name)
        rw [Patch.expr, Patch.put_of_off off]
      · rw [some, some']
        refine (member_agree (ih.mono (Nat.le_of_lt r.shorter)) next off).bind fun m m' same next ↦ ?_
        exact .ok same next
    · rw [some, some']
      dsimp only
      split
      · refine (ih.items (.inl rfl) (.inl next) r.shorter).bind fun a a' same next ↦ ?_
        refine .ok ⟨?_, off⟩ next
        show Expr.array (_ : Span) _ = w.patch.expr (.array (t.span.through a.value.2) a.value.1)
        rw [Patch.expr, Patch.put_of_off (off.through _), w.patch.move_through, same.1, same.2]
      · refine (ih.arguments (.inl next) r.shorter).bind fun a a' same next ↦ ?_
        refine .ok ⟨?_, off⟩ next
        show Expr.call (_ : Span) name _ =
          w.patch.expr (.call (t.span.through a.value.2) name a.value.1)
        rw [Patch.expr, Patch.put_of_off (off.through _), w.patch.move_through, same.1, same.2]

/-- Operands agree: the token ahead is the same, and it tells which rule reads them. -/
theorem primary_agree (ih : w.Mirror c.size) (h : w.At c c') :
    w.Agree w.Same (primary c) (primary c') := by
  rcases h.cases with ⟨s, s', rfl, rfl⟩ | ⟨s, t, ts, s', ts', rfl, rfl, off, next, -⟩ |
    ⟨s, t, ts, s', t', ts', rfl, rfl, stop, stop'⟩
  · rw [primary, primary]
    exact .error
  · obtain ⟨h₁, step⟩ := Cursor.advance_cons s t ts
    obtain ⟨h₂, step'⟩ := Cursor.advance_cons s' (w.patch.token t) ts'
    cases hlit : literal? t with
    | some e =>
      obtain ⟨moved, offE⟩ := literal?_token off hlit
      obtain ⟨_, read⟩ := primary_of_literal (s := s) (r := ts) hlit
      obtain ⟨_, read'⟩ := primary_of_literal (s := s') (r := ts') moved
      rw [read, read']
      exact .ok ⟨rfl, offE⟩ next
    | none =>
      have hlit' := literal?_token_eq_none (w := w) hlit
      by_cases paren : t.kind = .punct .openParen
      · rw [primary, primary, step, step']
        simp only [ok_bind, hlit, hlit', paren, Patch.kind_token, Patch.span_token]
        refine (ih.expression 0 next h₁).bind fun e e' inner next ↦ ?_
        refine (next.expect (.inl rfl)).bind fun r r' close next ↦ ?_
        refine .ok ⟨?_, Patch.off_withSpan (off.through r.value)⟩ next
        show e'.value.withSpan ((w.patch.move t.span).through r'.value) =
          w.patch.expr (e.value.withSpan (t.span.through r.value))
        rw [Patch.expr_withSpan inner.2 (off.through _), w.patch.move_through, close, inner.1]
      by_cases bracket : t.kind = .punct .openBracket
      · rw [primary, primary, step, step']
        simp only [ok_bind, hlit, hlit', bracket, Patch.kind_token, Patch.span_token]
        refine (ih.items (.inr rfl) (.inl next) h₁).bind fun a a' same next ↦ ?_
        refine .ok ⟨?_, off⟩ next
        show Expr.array (_ : Span) _ = w.patch.expr (.array (t.span.through a.value.2) a.value.1)
        rw [Patch.expr, Patch.put_of_off (off.through _), w.patch.move_through, same.1, same.2]
      by_cases name : ∃ n, t.kind = .ident n
      · obtain ⟨n, name⟩ := name
        rw [primary, primary, step, step']
        simp only [ok_bind, hlit, hlit', name, Patch.kind_token, Patch.span_token]
        refine (named_agree (ih.mono (Nat.le_of_lt h₁)) next n off).bind fun _ _ same next ↦ ?_
        exact .ok same next
      rw [primary, primary, step, step']
      simp only [ok_bind, hlit, hlit', Patch.kind_token]
      split
      all_goals first | (simp_all; done) | exact .error
  · exact .errors (primary_of_begins (begins_of_isStop stop))
      (primary_of_begins (begins_of_isStop stop'))

/-! ### Casts -/

theorem cast?_of_kind {s : Span} {t u : Token} {us : List Token} (h : castKind? u = none) :
    cast? ⟨s, t :: u :: us⟩ = none := by
  cases us with
  | nil => rfl
  | cons v vs => simp [cast?, h]

/-- Without a closing parenthesis there is no cast. -/
theorem cast?_of_unclosed {s : Span} {t u : Token} {us : List Token}
    (h : (Cursor.mk u.span us).punct? .closeParen = none) : cast? ⟨s, t :: u :: us⟩ = none := by
  cases us with
  | nil => rfl
  | cons v vs =>
    have open' : v.isPunct .closeParen = false := by
      cases hv : v.isPunct .closeParen with
      | false => rfl
      | true => simp [Cursor.punct?, Cursor.accept?, hv] at h
    simp [cast?, open']

/-- A word in parentheses that names a type is a cast. -/
theorem cast?_of_closed {s : Span} {t u : Token} {us : List Token} {kind : CastKind}
    {r : Read Token (Cursor.mk u.span us).size} (ht : t.isPunct .openParen)
    (hu : castKind? u = some kind) (h : (Cursor.mk u.span us).punct? .closeParen = some r) :
    ∃ shorter, cast? ⟨s, t :: u :: us⟩ = some ⟨kind, r.next, shorter⟩ := by
  cases us with
  | nil => cases h
  | cons v vs =>
    cases hv : v.isPunct .closeParen with
    | false => simp [Cursor.punct?, Cursor.accept?, hv] at h
    | true =>
      simp only [Cursor.punct?, Cursor.accept?, hv, if_true, Option.some.injEq] at h
      subst h
      refine ⟨Nat.lt_succ_of_lt (Nat.lt_succ_of_lt (Nat.lt_succ_self _)), ?_⟩
      simp [cast?, ht, hv, hu]

/-- The word of a cast is a constant's name where the parenthesis is not closed behind it, and what
is not closed is no operand. -/
theorem unary_of_unclosed {s : Span} {t u v : Token} {vs : List Token} {kind : CastKind}
    (ht : t.isPunct .openParen) (hu : castKind? u = some kind) (hv : v.isPunct .semicolon) :
    ∃ e, unary ⟨s, t :: u :: v :: vs⟩ = .error e := by
  rw [Token.isPunct, beq_iff_eq] at ht hv
  have stop : isStop v := by simp [isStop, isBarrier, hv]
  obtain ⟨n, hk, plain, new, supported⟩ : ∃ n, u.kind = .ident n ∧
      (∀ sp, wordLiteral? (String.ofList (lower n.toList)) false sp = none) ∧
      String.ofList (lower n.toList) ≠ "new" ∧
      isUnsupportedWord (String.ofList (lower n.toList)) = false := by
    obtain ⟨k, sp, tx⟩ := u
    unfold castKind? Token.keyword? at hu
    cases k with
    | ident n =>
      refine ⟨n, rfl, ?_⟩
      dsimp only at hu
      generalize String.ofList (lower n.toList) = word at hu ⊢
      split at hu <;> rename_i hw <;> first
        | (injection hw with hw; subst hw; exact ⟨fun _ ↦ rfl, by decide, by decide⟩)
        | cases hu
    | _ => simp at hu
  have operand : Yields (unary ⟨t.span, u :: v :: vs⟩) (.const u.span n) ⟨u.span, v :: vs⟩ := by
    refine unary_of_primary ?_ (primary_of_ident hk (named_of_constant ?_ plain new supported))
      (suffixes_of_ends (endsOperand_of_isStop stop))
    · simp [prefixOperator?, isReferenceMark, Token.isPunct, hk]
    · simp [hv]
  obtain ⟨_, inner⟩ := expression_of_unary (m := 0) operand (operators_of_ends (ends_of_isStop stop))
  obtain ⟨_, step⟩ := Cursor.advance_cons s t (u :: v :: vs)
  obtain ⟨e, closed⟩ := expect_of_ne (s := u.span) (t := v) (r := vs) (p := .closeParen) (by simp [hv])
  have noCast : cast? ⟨s, t :: u :: v :: vs⟩ = none :=
    cast?_of_unclosed (Cursor.punct?_eq_none (by simp [hv]))
  have opened : ∃ e, primary ⟨s, t :: u :: v :: vs⟩ = .error e := by
    rw [primary, step]
    simp only [ok_bind, literal?, ht, inner, closed]
    exact ⟨_, rfl⟩
  obtain ⟨e, opened⟩ := opened
  rw [unary, step]
  simp only [ok_bind, prefixOperator?, isReferenceMark, Token.isPunct, ht, noCast, opened]
  exact ⟨_, rfl⟩

/-- Reading a cast; in loose twins there may be one only in the second list. -/
theorem At.cast? {t : Token} {ts ts' : List Token}
    (h : w.At ⟨t.span, ts⟩ ⟨w.patch.move t.span, ts'⟩) (s s' : Span) :
    (Script.cast? ⟨s, t :: ts⟩ = none ∧ Script.cast? ⟨s', w.patch.token t :: ts'⟩ = none) ∨
      (¬w.strict ∧ ∃ e, unary ⟨s, t :: ts⟩ = .error e) ∨
      ∃ k k', Script.cast? ⟨s, t :: ts⟩ = some k ∧
        Script.cast? ⟨s', w.patch.token t :: ts'⟩ = some k' ∧ k'.value = k.value ∧
        w.At k.next k'.next := by
  cases ht : t.isPunct .openParen with
  | false => exact .inl ⟨cast?_eq_none ht, cast?_eq_none ht⟩
  | true =>
    have no_word : ∀ u : Token, isStop u → castKind? u = none := by
      intro u hu
      rcases kind_of_isStop hu with h | h | h | h | h | h | h | h | h <;>
        simp [castKind?, Token.keyword?, h]
    rcases h.cases with ⟨_, _, h, h'⟩ | ⟨_, u, us, _, us', h, h', off, next, -⟩ |
      ⟨_, u, us, _, u', us', h, h', stop, stop'⟩ <;> cases h <;> cases h'
    · exact .inl ⟨rfl, rfl⟩
    · cases hu : castKind? u with
      | none => exact .inl ⟨cast?_of_kind hu, cast?_of_kind hu⟩
      | some kind =>
        rcases next.punct?_close (p := .closeParen) (.inl rfl) with
          ⟨none, none'⟩ | ⟨loose, _, v, vs, hv, semi⟩ | ⟨r, r', some, some', -, next⟩
        · exact .inl ⟨cast?_of_unclosed none, cast?_of_unclosed none'⟩
        · cases hv
          exact .inr (.inl ⟨loose, unary_of_unclosed ht hu semi⟩)
        · obtain ⟨_, cast⟩ := cast?_of_closed (s := s) ht hu some
          obtain ⟨_, cast'⟩ := cast?_of_closed (s := s') (t := w.patch.token t)
            (u := w.patch.token u) ht hu some'
          exact .inr (.inr ⟨_, _, cast, cast', rfl, next⟩)
    · exact .inl ⟨cast?_of_kind (no_word u stop), cast?_of_kind (no_word u' stop')⟩

/-! ### Whole expressions -/

/-- Operands with what is in front of them agree. A cast is told by three tokens, none of which a hole
begins with. -/
theorem unary_agree (ih : w.Mirror c.size) (h : w.At c c') :
    w.Agree w.Same (unary c) (unary c') := by
  have base := primary_agree ih h
  rcases h.cases with ⟨s, s', rfl, rfl⟩ | ⟨s, t, ts, s', ts', rfl, rfl, off, next, -⟩ |
    ⟨s, t, ts, s', t', ts', rfl, rfl, stop, stop'⟩
  · rw [unary, unary]
    exact .error
  · obtain ⟨h₁, step⟩ := Cursor.advance_cons s t ts
    obtain ⟨h₂, step'⟩ := Cursor.advance_cons s' (w.patch.token t) ts'
    have same_op : prefixOperator? (w.patch.token t) = prefixOperator? t := rfl
    have same_mark : isReferenceMark (w.patch.token t) = isReferenceMark t := rfl
    cases hop : prefixOperator? t with
    | some op =>
      rw [unary, unary, step, step']
      simp only [ok_bind, same_op, hop, Patch.span_token]
      refine (ih.expression _ next h₁).bind fun e e' same next ↦ ?_
      refine .ok ⟨?_, off⟩ next
      show Expr.unary (_ : Span) op _ = w.patch.expr (.unary (t.span.through e.value.span) op e.value)
      rw [Patch.expr, Patch.put_of_off (off.through _), w.patch.move_through, same.1,
        Patch.span_expr same.2]
    | none =>
      cases hmark : isReferenceMark t with
      | true =>
        rw [unary, unary, step, step']
        simp only [ok_bind, same_op, same_mark, hop, hmark, if_true]
        exact .error
      | false =>
        -- Loose twins may differ in whether a word in parentheses is a cast; then the first text is not
        -- accepted.
        rcases next.cast? s s' with
          ⟨none, none'⟩ | ⟨loose, fails⟩ | ⟨k, k', some, some', same, next⟩
        · rw [unary, unary, step, step']
          simp only [ok_bind, same_op, same_mark, hop, hmark, none, none', Bool.false_eq_true,
            if_false]
          refine base.bind fun a a' same next ↦ ?_
          rw [same.1]
          refine (ih.suffixes next a.shorter same.2).bind fun _ _ same next ↦ ?_
          exact .ok same next
        · exact .loose loose fails _
        · rw [unary, unary, step, step']
          simp only [ok_bind, same_op, same_mark, hop, hmark, some, some', Bool.false_eq_true,
            if_false, Patch.span_token]
          refine (ih.expression _ next k.shorter).bind fun e e' inner next ↦ ?_
          refine .ok ⟨?_, off⟩ next
          show Expr.cast (_ : Span) k'.value _ =
            w.patch.expr (.cast (t.span.through e.value.span) k.value e.value)
          rw [Patch.expr, Patch.put_of_off (off.through _), w.patch.move_through, inner.1,
            Patch.span_expr inner.2, same]
  · exact .errors (unary_of_begins (begins_of_isStop stop)) (unary_of_begins (begins_of_isStop stop'))

/-- Expressions agree, with the operators behind their first operand. -/
theorem expression_agree (ih : w.Mirror c.size) (h : w.At c c') (min : Nat) :
    w.Agree w.Same (expression min c) (expression min c') := by
  rw [expression, expression]
  refine (unary_agree ih h).bind fun a a' same next ↦ ?_
  rw [same.1]
  refine (ih.operators min next a.shorter same.2).bind fun _ _ same next ↦ ?_
  exact .ok same next

end ConfigScript.Script.Twinning
