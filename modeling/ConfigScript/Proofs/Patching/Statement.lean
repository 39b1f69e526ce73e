import ConfigScript.Proofs.Patching.Simple

/-!
# Statements in two texts at once

The parser of statements does the same in twins up to the end: what it takes for a statement by its
grammar, what it skips and where it gives up. So the statements of the second text are the patched
statements of the first one (`statements_patched`).
-/

namespace ConfigScript.Script.Twinning

variable (w : Twinning)

/-- A branch with the span that ends it. -/
def SameBranch (a a' : Branch × Span) : Prop :=
  w.patch.branches [a.1] = [a'.1] ∧ w.Ends a.2 a'.2

/-- Statements with the span that ends them. -/
def SameStmts (a a' : List Stmt × Span) : Prop := a'.1 = w.patch.stmts a.1 ∧ w.Ends a.2 a'.2

/-- What follows a branch. -/
structure SameAlternatives (a a' : Alternatives) : Prop where
  branches : a'.branches = w.patch.branches a.branches
  otherwise : a'.otherwise = a.otherwise.map w.patch.stmts
  stop : w.Ends a.stop a'.stop

/-- The parser of statements agrees with fewer than `n` tokens ahead. -/
structure Mirrors (n : Nat) : Prop where
  statement : ∀ {c c' : Cursor}, w.At c c' → c.size < n →
    w.Agree (fun s s' ↦ s' = s.map w.patch.stmt) (statement c) (statement c')
  branch : ∀ {c c' : Cursor}, w.At c c' → c.size < n → w.Agree w.SameBranch (branch c) (branch c')
  alternatives : ∀ {c c' : Cursor} {stop stop' : Span}, w.At c c' → w.Ends stop stop' →
    c.size < n → w.Agree w.SameAlternatives (alternatives stop c) (alternatives stop' c')
  body : ∀ {c c' : Cursor}, w.At c c' → c.size < n → w.Agree w.SameStmts (body c) (body c')
  block : ∀ {c c' : Cursor}, w.At c c' → c.size < n → w.Agree w.SameStmts (block c) (block c')

variable {w} {c c' : Cursor}

/-- What agrees below a bound agrees below each smaller one. -/
theorem Mirrors.mono {m n : Nat} (h : w.Mirrors n) (le : m ≤ n) : w.Mirrors m where
  statement twin lt := h.statement twin (Nat.lt_of_lt_of_le lt le)
  branch twin lt := h.branch twin (Nat.lt_of_lt_of_le lt le)
  alternatives twin ends lt := h.alternatives twin ends (Nat.lt_of_lt_of_le lt le)
  body twin lt := h.body twin (Nat.lt_of_lt_of_le lt le)
  block twin lt := h.block twin (Nat.lt_of_lt_of_le lt le)

theorem branches_cons (k : Patch) (b : Branch) (bs : List Branch) :
    k.branches (b :: bs) = k.branches [b] ++ k.branches bs := by
  obtain ⟨condition, body⟩ := b
  simp [Patch.branches]

/-- Alternatives that agree do so with a branch in front that agrees. -/
theorem SameBranch.addBranch {b b' : Branch × Span} {a a' : Alternatives} (h : w.SameBranch b b')
    (more : w.SameAlternatives a a') :
    w.SameAlternatives (a.addBranch b.1) (a'.addBranch b'.1) where
  branches := by
    show b'.1 :: a'.branches = w.patch.branches (b.1 :: a.branches)
    rw [branches_cons, h.1, more.branches]
    rfl
  otherwise := more.otherwise
  stop := more.stop

namespace Settled

variable (S : w.Settled)

include S in
/-- Branches agree. -/
theorem branch (ih : w.Mirrors c.size) (h : w.At c c') :
    w.Agree w.SameBranch (branch c) (branch c') := by
  rw [Script.branch, Script.branch]
  refine (S.expect h .openParen).bind fun o o' _ past ↦ ?_
  refine (S.expression (past.twin (by simp) (by simp)) 0).bind fun e e' condition next ↦ ?_
  refine (S.expect next .closeParen).bind fun q q' _ past ↦ ?_
  have next := past.twin (by simp) (by simp)
  rw [S.atPunct next]
  split
  · exact .errors (exists_unsupported _ _) (exists_unsupported _ _)
  have lt : q.next.size < c.size := Nat.lt_trans q.shorter (Nat.lt_trans e.shorter o.shorter)
  refine (ih.body next lt).bind fun a a' same next ↦ ?_
  refine .ok ⟨?_, same.2⟩ next
  show w.patch.branches [.mk e.value a.value.1] = [.mk e'.value a'.value.1]
  rw [Patch.branches, Patch.branches, condition.1, same.1]

include S in
/-- The alternatives of a conditional agree: the same word begins them in both texts, or there are none.
-/
theorem alternatives (ih : w.Mirrors c.size) (h : w.At c c') {stop stop' : Span}
    (ends : w.Ends stop stop') :
    w.Agree w.SameAlternatives (alternatives stop c) (alternatives stop' c') := by
  rw [Script.alternatives, Script.alternatives]
  rcases S.keyword? h "elseif" with ⟨none, none'⟩ | ⟨q, q', read, read', next⟩
  · rw [none, none']
    dsimp only
    rcases S.keyword? h "else" with ⟨none, none'⟩ | ⟨q, q', read, read', next⟩
    · rw [none, none']
      exact .ok ⟨rfl, rfl, ends⟩ h
    rw [read, read']
    dsimp only
    rcases S.keyword? next "if" with ⟨none, none'⟩ | ⟨p, p', again, again', next⟩
    · rw [none, none']
      refine (ih.body next q.shorter).bind fun a a' same next ↦ ?_
      refine .ok ⟨rfl, ?_, same.2⟩ next
      show some a'.value.1 = (some a.value.1).map _
      rw [same.1]
      rfl
    · rw [again, again']
      have lt : p.next.size < c.size := Nat.lt_trans p.shorter q.shorter
      refine (ih.branch next lt).bind fun b b' one next ↦ ?_
      refine (ih.alternatives next one.2 (Nat.lt_trans b.shorter lt)).bind fun a a' more next ↦ ?_
      exact .ok (one.addBranch more) next
  · rw [read, read']
    refine (ih.branch next q.shorter).bind fun b b' one next ↦ ?_
    refine (ih.alternatives next one.2 (Nat.lt_trans b.shorter q.shorter)).bind
      fun a a' more next ↦ ?_
    exact .ok (one.addBranch more) next

/-- The conditional statement that a branch and what follows it make up. -/
theorem conditional_patched {s : Span} {b b' : Branch × Span} {a a' : Alternatives}
    (one : w.SameBranch b b') (more : w.SameAlternatives a a') :
    w.SameStmt (.conditional (s.through a.stop) (b.1 :: a.branches) a.otherwise)
      (.conditional ((w.patch.move s).through a'.stop) (b'.1 :: a'.branches) a'.otherwise) := by
  have branches : b'.1 :: a'.branches = w.patch.branches (b.1 :: a.branches) := by
    rw [branches_cons, one.1, more.branches]
    rfl
  rw [SameStmt, branches, more.otherwise, more.stop.through]
  cases a.otherwise <;> rw [Patch.stmt] <;> rfl

include S in
/-- Statements with a grammar agree. -/
theorem structured (ih : w.Mirrors c.size) (h : w.At c c') :
    w.Agree w.SameStmt (structured c) (structured c') := by
  have expression := S.expressionStatement h
  have assignment := S.assignment h
  rcases S.front h with ⟨s, s', rfl, rfl⟩ | ⟨s, t, ts, s', ts', rfl, rfl, -, past⟩
  · rw [Script.structured, Script.structured]
    exact .error
  obtain ⟨h₁, step⟩ := Cursor.advance_cons s t ts
  obtain ⟨h₂, step'⟩ := Cursor.advance_cons s' (w.patch.token t) ts'
  rw [Script.structured, Script.structured, step, step']
  simp only [ok_bind, Patch.kind_token, Patch.span_token]
  split
  · rename_i name kind
    have next := past.twin (by simp [kind]) (by simp [kind])
    split
    · refine (ih.branch next h₁).bind fun b b' one next ↦ ?_
      refine (ih.alternatives next one.2 (Nat.lt_trans b.shorter h₁)).bind fun a a' more next ↦ ?_
      exact .ok (conditional_patched one more) next
    · rcases S.word next (String.ofList (lower name.toList)) t with
        ⟨none, none'⟩ | ⟨x, x', read, read', same⟩
      · rw [none, none']
        exact expression
      · rw [read, read']
        refine same.bind fun a a' same next ↦ ?_
        exact .ok same next
  · rcases assignment with ⟨⟨e, fails⟩, e', fails'⟩ | ⟨none, none'⟩ | ⟨r, r', read, read', same, next⟩
    · rw [fails, fails']
      exact .error
    · rw [none, none']
      exact expression
    · rw [read, read']
      exact .ok same next
  · exact expression

include S in
/-- Statements agree: in both texts there is a tag, a block, a statement with a grammar or one that is
skipped. -/
theorem statement (ih : w.Mirrors c.size) (h : w.At c c') :
    w.Agree (fun s s' ↦ s' = s.map w.patch.stmt) (statement c) (statement c') := by
  have grammar := S.structured ih h
  have skipping := S.opaqueStatement h
  rcases S.front h with ⟨s, s', rfl, rfl⟩ | ⟨s, t, ts, s', ts', rfl, rfl, -, past⟩
  · rw [Script.statement, Script.statement]
    exact .error
  obtain ⟨h₁, step⟩ := Cursor.advance_cons s t ts
  obtain ⟨h₂, step'⟩ := Cursor.advance_cons s' (w.patch.token t) ts'
  rw [Script.statement, Script.statement, step, step']
  simp only [ok_bind, Patch.kind_token, Patch.span_token]
  have twin : t.kind ≠ .punct .comma → t.kind ≠ .punct .assign →
      w.At ⟨t.span, ts⟩ ⟨w.patch.move t.span, ts'⟩ := past.twin
  split
  · rename_i kind
    exact .ok rfl (twin (by simp [kind]) (by simp [kind]))
  · rename_i kind
    exact .ok rfl (twin (by simp [kind]) (by simp [kind]))
  · rename_i kind
    exact .ok rfl (twin (by simp [kind]) (by simp [kind]))
  · rename_i kind
    refine .ok ?_ (twin (by simp [kind]) (by simp [kind]))
    show some _ = (some _).map w.patch.stmt
    rw [Option.map_some, Patch.stmt]
    rfl
  · rename_i kind
    refine (ih.block (twin (by simp [kind]) (by simp [kind])) h₁).bind fun a a' same next ↦ ?_
    refine .ok ?_ next
    show some (Stmt.block ((w.patch.move t.span).through a'.value.2) a'.value.1) =
      (some (Stmt.block (t.span.through a.value.2) a.value.1)).map w.patch.stmt
    rw [Option.map_some, Patch.stmt, same.2.through, same.1]
  · exact .error
  · rcases S.agree_cases grammar with ⟨e, e', fails, fails'⟩ | ⟨r, r', read, read', same, next⟩
    · rw [fails, fails']
      refine skipping.bind fun a a' same next ↦ ?_
      exact .ok (congrArg some same) next
    · rw [read, read']
      exact .ok (congrArg some same) next

include S in
/-- Bodies agree. -/
theorem body (ih : w.Mirrors c.size) (h : w.At c c') : w.Agree w.SameStmts (body c) (body c') := by
  have one := S.statement ih h
  rw [Script.body, Script.body]
  rcases S.punct? h .openBrace with ⟨none, none'⟩ | ⟨q, q', read, read', -, past⟩
  · rw [none, none']
    dsimp only
    have same : c'.rest.isEmpty = c.rest.isEmpty := by
      rcases S.front h with ⟨s, s', rfl, rfl⟩ | ⟨s, t, ts, s', ts', rfl, rfl, -, -⟩ <;> rfl
    rw [same]
    split
    · exact .ok ⟨rfl, h.last⟩ h
    · refine one.bind fun a a' same next ↦ ?_
      refine .ok ⟨?_, next.last⟩ next
      show a'.value.toList = w.patch.stmts a.value.toList
      rw [same]
      cases a.value <;> rfl
  · rw [read, read']
    refine (ih.block (past.twin (by simp) (by simp)) q.shorter).bind fun a a' same next ↦ ?_
    exact .ok same next

include S in
/-- Blocks agree. -/
theorem block (ih : w.Mirrors c.size) (h : w.At c c') :
    w.Agree w.SameStmts (block c) (block c') := by
  have first := S.statement ih h
  rw [Script.block, Script.block]
  rcases S.punct? h .closeBrace with ⟨none, none'⟩ | ⟨q, q', read, read', token, past⟩
  · rw [none, none']
    refine first.bind fun a a' one next ↦ ?_
    refine (ih.block next a.shorter).bind fun b b' more next ↦ ?_
    refine .ok ⟨?_, more.2⟩ next
    show a'.value.toList ++ b'.value.1 = w.patch.stmts (a.value.toList ++ b.value.1)
    rw [Patch.stmts_append, one, more.1]
    cases a.value <;> rfl
  · rw [read, read']
    exact .ok ⟨rfl, congrArg (fun q : Token ↦ q.span.stop) token⟩ (past.twin (by simp) (by simp))

include S in
/-- All functions of the parser agree, however many tokens are ahead. By induction on their number. -/
theorem mirrors (n : Nat) : w.Mirrors n := by
  induction n with
  | zero =>
    exact ⟨fun _ lt ↦ absurd lt (Nat.not_lt_zero _), fun _ lt ↦ absurd lt (Nat.not_lt_zero _),
      fun _ _ lt ↦ absurd lt (Nat.not_lt_zero _), fun _ lt ↦ absurd lt (Nat.not_lt_zero _),
      fun _ lt ↦ absurd lt (Nat.not_lt_zero _)⟩
  | succ n ih =>
    have below : ∀ {c : Cursor}, c.size < n + 1 → w.Mirrors c.size := fun lt ↦
      ih.mono (Nat.le_of_lt_succ lt)
    exact {
      statement := fun h lt ↦ S.statement (below lt) h
      branch := fun h lt ↦ S.branch (below lt) h
      alternatives := fun h ends lt ↦ S.alternatives (below lt) h ends
      body := fun h lt ↦ S.body (below lt) h
      block := fun h lt ↦ S.block (below lt) h }

include S in
/-- The statements of the second text are the patched statements of the first one. -/
theorem statements_patched {c c' : Cursor} (h : w.At c c') {ss : List Stmt}
    (parsed : statements c = .ok ss) : statements c' = .ok (w.patch.stmts ss) := by
  rw [statements] at parsed ⊢
  rcases S.front h with ⟨s, s', rfl, rfl⟩ | ⟨s, t, ts, s', ts', rfl, rfl, -, -⟩
  · obtain rfl := Except.ok.inj parsed
    rfl
  obtain ⟨r, one, parsed⟩ := exists_of_bind parsed
  obtain ⟨more, others, parsed⟩ := exists_of_bind parsed
  obtain rfl := Except.ok.inj parsed
  rcases S.agree_cases (S.statement (S.mirrors _) h) with
    ⟨e, e', fails, -⟩ | ⟨q, q', read, read', same, next⟩
  · rw [fails] at one
    cases one
  obtain rfl := Except.ok.inj (read.symm.trans one)
  have shorter := q.shorter
  have rest := statements_patched next others
  show (Script.statement _ >>= _) = _
  rw [read']
  simp only [ok_bind, rest]
  show Except.ok _ = Except.ok _
  rw [Patch.stmts_append, same]
  cases q.value <;> rfl
termination_by c.size

end Settled

end ConfigScript.Script.Twinning
