import ConfigScript.Proofs.Parsing.Accepted
import ConfigScript.Proofs.Parsing.Nodes

/-!
# Where the expressions of a script stand

The tokens of statements are the expressions they hold, one behind the other, and tokens that belong to
no expression (`Holds`). Whatever the parser accepts is made up like this, the values of assignments
and declarations standing behind their equals signs (`Made`); what it skips holds no expression.
-/

namespace ConfigScript

open Script (Alternatives)

/-! ### Expressions of statements -/

/-- An outermost expression of a statement. -/
inductive Root where
  | inner (e : Expr)
  /-- The whole value that a name is assigned. -/
  | assigned (e : Expr)

namespace Root

/-- The expression itself. -/
def expr : Root → Expr
  | inner e | assigned e => e

end Root

/-- The indices that a target holds. -/
def Target.roots (t : Target) : List Root := t.indices.filterMap (·.map .inner)

namespace Stmt

mutual

/-- The outermost expressions of a statement, in source order. -/
def roots : Stmt → List Root
  | .expr _ e => [.inner e]
  | .assign _ op t e => t.roots ++ [if op = .assign then .assigned e else .inner e]
  | .const _ is => is.map (.assigned ·.value)
  | .load _ _ p => [.inner p]
  | .conditional _ bs none => rootsOfBranches bs
  | .conditional _ bs (some body) => rootsOfBranches bs ++ rootsOfList body
  | .block _ body => rootsOfList body
  | .unset _ ts => ts.flatMap Target.roots
  | .global _ _ | .ret _ | .exit _ | .inlineHtml _ | .opaqueStmt _ => []

/-- The outermost expressions of statements. -/
def rootsOfList : List Stmt → List Root
  | [] => []
  | s :: ss => roots s ++ rootsOfList ss

/-- The outermost expressions of branches. -/
def rootsOfBranches : List Branch → List Root
  | [] => []
  | .mk c body :: bs => .inner c :: (rootsOfList body ++ rootsOfBranches bs)

end

/-- The expressions of statements are those of the first and those of the others. -/
theorem rootsOfList_append (as bs : List Stmt) :
    rootsOfList (as ++ bs) = rootsOfList as ++ rootsOfList bs := by
  induction as with
  | nil => rfl
  | cons s as ih => rw [List.cons_append, rootsOfList, rootsOfList, ih, List.append_assoc]

end Stmt

/-- The outermost expressions of what follows a branch. -/
def Script.Alternatives.roots (a : Alternatives) : List Root :=
  Stmt.rootsOfBranches a.branches ++ a.otherwise.elim [] Stmt.rootsOfList

namespace Script

/-! ### What tokens hold -/

/-- The tokens in front of `rest` hold expressions, in this order. Each of them stands behind a token that
is no opening tag, or begins a statement; then it does not begin with the word that `<?=` stands for. -/
inductive Holds (rest : List Token) : List Token → List Root → Prop
  | nil : Holds rest [] []
  | token (t : Token) {ts : List Token} {rs : List Root} (more : Holds rest ts rs) :
      Holds rest (t :: ts) rs
  | first {us ts : List Token} {e : Expr} {rs : List Root} (spells : Spells (ts ++ rest) us (.expr e))
      (asked : Asked us (ts ++ rest) e) (word : ∀ u ∈ us.head?, u.kind ≠ .ident "echo")
      (more : Holds rest ts rs) : Holds rest (us ++ ts) (.inner e :: rs)
  | behind {t : Token} {us ts : List Token} {r : Root} {rs : List Root} (lead : t.kind ≠ .openTag)
      (spells : Spells (ts ++ rest) us (.expr r.expr)) (asked : Asked us (ts ++ rest) r.expr)
      (value : ∀ v, r = .assigned v → t.kind = .punct .assign ∧ (ts ++ rest).head?.any endsValue)
      (more : Holds rest ts rs) : Holds rest (t :: (us ++ ts)) (r :: rs)

/-- Tokens that hold expressions hold those of both together. -/
theorem Holds.append {rest ts us : List Token} {rs qs : List Root} (h : Holds (us ++ rest) ts rs)
    (h' : Holds rest us qs) : Holds rest (ts ++ us) (rs ++ qs) := by
  induction h with
  | nil => exact h'
  | token t _ ih => exact .token t ih
  | first spells asked word _ ih =>
    rw [List.append_assoc]
    rw [← List.append_assoc] at spells asked
    exact .first spells asked word ih
  | behind lead spells asked value _ ih =>
    rw [List.cons_append, List.append_assoc]
    rw [← List.append_assoc] at spells asked value
    exact .behind lead spells asked value ih

/-- Tokens hold no expressions that one needs to name. -/
theorem holds_tokens (rest ts : List Token) : Holds rest ts [] := by
  induction ts with
  | nil => exact .nil
  | cons t ts ih => exact .token t ih

/-- What was read from `c` to `next` holds the expressions. -/
def Made (c next : Cursor) (rs : List Root) : Prop := ∃ pre, Took c pre next ∧ Holds next.rest pre rs

variable {c d e : Cursor}

theorem Took.made {pre : List Token} (h : Took c pre d) : Made c d [] := ⟨pre, h, holds_tokens _ _⟩

theorem Made.refl (c : Cursor) : Made c c [] := (Took.refl c).made

/-- What is made of expressions, and then of more, is made of both. -/
theorem Made.trans {rs qs : List Root} (h : Made c d rs) (h' : Made d e qs) :
    Made c e (rs ++ qs) := by
  obtain ⟨pre, took, holds⟩ := h
  obtain ⟨pre', took', holds'⟩ := h'
  rw [took'.rest] at holds
  exact ⟨_, took.trans took', holds.append holds'⟩

/-- Tokens in front. -/
theorem Took.before {pre : List Token} {rs : List Root} (h : Took c pre d) (h' : Made d e rs) :
    Made c e rs := h.made.trans h'

/-- Tokens behind. -/
theorem Made.behind {rs : List Root} (h : Made c d rs) (h' : Made d e []) : Made c e rs := by
  have both := h.trans h'
  rwa [List.append_nil] at both

/-- An expression that begins a statement. -/
theorem made_of_first {r : Read Expr c.size} (word : ∀ u ∈ c.rest.head?, u.kind ≠ .ident "echo")
    (h : expression 0 c = .ok r) : Made c r.next [.inner r.value] := by
  obtain ⟨pre, took, spells⟩ := spelled h
  refine ⟨pre, took, ?_⟩
  have asked := asked_of_expression h took spells.some
  have word' : ∀ u ∈ pre.head?, u.kind ≠ .ident "echo" := by
    obtain ⟨u, us, rfl⟩ := List.exists_cons_of_ne_nil spells.some
    rwa [took.rest] at word
  have holds : Holds r.next.rest (pre ++ []) [.inner r.value] := .first spells asked word' .nil
  rwa [List.append_nil] at holds

/-- An expression behind a token. -/
theorem made_of_behind {t : Token} {r : Read Expr d.size} {q : Root} (took : Took c [t] d)
    (lead : t.kind ≠ .openTag) (h : expression 0 d = .ok r) (same : q.expr = r.value)
    (value : ∀ v, q = .assigned v → t.kind = .punct .assign ∧ r.next.rest.head?.any endsValue) :
    Made c r.next [q] := by
  obtain ⟨pre, took', spells⟩ := spelled h
  refine ⟨_, took.cons took', ?_⟩
  have asked := asked_of_expression h took' spells.some
  rw [← same] at spells asked
  have holds : Holds r.next.rest (t :: (pre ++ [])) [q] := .behind lead spells asked value .nil
  rwa [List.append_nil] at holds

theorem made_of_inner {t : Token} {r : Read Expr d.size} (took : Took c [t] d)
    (lead : t.kind ≠ .openTag) (h : expression 0 d = .ok r) : Made c r.next [.inner r.value] :=
  made_of_behind took lead h rfl nofun

/-- An equals sign and the expression behind it are made of an assigned value, if its end is one of a
value. -/
theorem made_of_assigned {t : Token} {r : Read Expr d.size} (took : Took c [t] d)
    (sign : t.kind = .punct .assign) (h : expression 0 d = .ok r)
    (ends : r.next.rest.head?.any endsValue) : Made c r.next [.assigned r.value] :=
  made_of_behind took (by simp [sign]) h rfl fun _ _ ↦ ⟨sign, ends⟩

/-- The end of a statement holds no expression, and it ends a value. -/
theorem made_of_terminator {last : Span} {r : Peeked Span c.size} (h : c.terminator last = .ok r) :
    Made c r.next [] ∧ c.rest.head?.any endsValue := by
  cases terminated_of_terminator h with
  | semicolon took kind =>
    exact ⟨took.made, by simp [head?_of_took took, endsValue, kind]⟩
  | closeTag head kind => exact ⟨.refl c, by simp [head, endsValue, kind]⟩

theorem made_of_ends {rs : List Root} {last : Span} {r : Peeked Span d.size} (h : Made c d rs)
    (stop : d.terminator last = .ok r) : Made c r.next rs := h.behind (made_of_terminator stop).1

/-! ### Statements without others inside -/

/-- Indices are made of the expressions in their brackets. -/
theorem made_of_indices {c : Cursor} {stop : Span} {r : Peeked (List (Option Expr) × Span) c.size}
    (h : indices stop c = .ok r) : Made c r.next (r.value.1.filterMap (·.map .inner)) := by
  cases indexed_of_indices h with
  | nothing value behind =>
    rw [value, behind]
    exact .refl c
  | bare took _ took' _ lt others value behind =>
    rw [value, behind]
    exact took.before (took'.before (made_of_indices others))
  | index took opens inner took' _ lt others value behind =>
    rw [value, behind]
    exact ((made_of_inner took (by simp [opens]) inner).behind took'.made).trans (made_of_indices others)
termination_by c.size

/-- A target is made of the expressions of its indices. -/
theorem made_of_target {r : Read Target c.size} (h : target c = .ok r) :
    Made c r.next r.value.roots := by
  cases targeted_of_target h with
  | mk took _ more => exact took.before (made_of_indices more)

/-- An assignment is made of the expressions of its target and of the value. -/
theorem made_of_assignment {r : Read Stmt c.size} (h : assignment? c = .ok (some r)) :
    Made c r.next r.value.roots := by
  cases assigned_of_assignment h with
  | @mk left sign op value stop first took hop inner last =>
    obtain ⟨behind, ends⟩ := made_of_terminator last
    refine (made_of_target first).trans (Made.behind ?_ behind)
    split
    · rename_i assign
      refine made_of_assigned took ?_ inner ends
      subst assign
      unfold assignOp? at hop
      split at hop <;> first | assumption | cases hop
    · refine made_of_inner took (fun hk ↦ ?_) inner
      simp [assignOp?, hk] at hop

/-- A statement that is an expression is made of that one. -/
theorem made_of_expressionStatement {r : Read Stmt c.size}
    (word : ∀ u ∈ c.rest.head?, u.kind ≠ .ident "echo") (h : expressionStatement c = .ok r) :
    Made c r.next r.value.roots := by
  cases expressed_of_expressionStatement h with
  | mk _ inner last => exact made_of_ends (made_of_first word inner) last

/-- Behind the names of a declaration stands what ends a value. -/
theorem made_of_constItems {c : Cursor} {r : Read (List ConstItem) c.size} (h : constItems c = .ok r)
    (ends : r.next.rest.head?.any endsValue) :
    Made c r.next (r.value.map (.assigned ·.value)) := by
  cases declared_of_constItems h with
  | last took _ took' assign inner value behind =>
    rw [behind] at ends
    rw [value, behind]
    exact took.before (made_of_assigned took' assign inner ends)
  | more took _ took' assign inner took'' comma lt others value behind =>
    rw [behind] at ends
    rw [value, behind]
    have here := made_of_assigned took' assign inner (by simp [head?_of_took took'', endsValue, comma])
    exact took.before (here.trans (took''.before (made_of_constItems others ends)))
termination_by c.size

/-- The targets of `unset` are made of the expressions of their indices. -/
theorem made_of_unsetTargets {c : Cursor} {r : Read (List Target × Span) c.size}
    (h : unsetTargets c = .ok r) : Made c r.next (r.value.1.flatMap Target.roots) := by
  cases emptied_of_unsetTargets h with
  | close took _ value =>
    rw [value]
    exact took.made
  | more one took _ lt others value behind =>
    rw [value, behind]
    exact (made_of_target one).trans (took.before (made_of_unsetTargets others))
termination_by c.size

/-- The names of `global` are made of no expressions. -/
theorem made_of_globalNames {c : Cursor} {r : Read (List String) c.size} (h : globalNames c = .ok r) :
    Made c r.next [] := by
  cases globals_of_globalNames h with
  | last took => exact took.made
  | more took _ took' _ lt others behind =>
    rw [behind]
    exact took.before (took'.before (made_of_globalNames others))
termination_by c.size

/-- What follows `return` or `exit` is not kept. -/
theorem roots_of_ending {stmt : Span → Stmt} (ending : stmt ∈ [Stmt.ret, .exit]) (s : Span) :
    (stmt s).roots = [] := by
  simp only [List.mem_cons, List.not_mem_nil, or_false] at ending
  rcases ending with rfl | rfl <;> rfl

/-- A statement that begins with a word is made of its expressions, behind that word. -/
theorem Worded.made {t : Token} {r : Peeked Stmt d.size} (h : Worded t r) (took : Took c [t] d)
    (lead : t.kind ≠ .openTag) : Made c r.next r.value.roots := by
  cases h with
  | load inner last => exact made_of_ends (made_of_inner took lead inner) last
  | const list last =>
    obtain ⟨behind, ends⟩ := made_of_terminator last
    exact took.before ((made_of_constItems list ends).behind behind)
  | unset took' _ list last =>
    exact took.before (made_of_ends (took'.before (made_of_unsetTargets list)) last)
  | global list last => exact took.before (made_of_ends (made_of_globalNames list) last)
  | bare ending last =>
    rw [Read.value_map, roots_of_ending ending]
    exact made_of_ends took.made last
  | ending ending inner last =>
    obtain ⟨pre, took', -⟩ := spelled inner
    show Made c _ (Stmt.roots _)
    rw [Read.value_peeked, Read.value_andMaybe, Read.value_map, roots_of_ending ending]
    exact made_of_ends (took.before took'.made) last

/-! ### Skipping -/

/-- Skipping reads tokens that are ahead. -/
theorem took_of_skipRest {c : Cursor} {opened : List Token} {r : Peeked Unit c.size}
    (h : skipRest opened c = .ok r) : ∃ pre, Took c pre r.next := by
  cases skipping_of_skipRest h with
  | stays _ _ behind =>
    rw [behind]
    exact ⟨[], .refl c⟩
  | semicolon _ took | block _ took => exact ⟨_, took⟩
  | opening took lt _ rest behind | closing _ took lt _ rest behind | plain took lt _ _ _ rest behind =>
    rw [behind]
    obtain ⟨pre, took'⟩ := took_of_skipRest rest
    exact ⟨_, took.cons took'⟩
termination_by c.size

/-- A skipped statement is made of no expressions. -/
theorem made_of_skipped {r : Read Stmt c.size} (h : opaqueStatement c = .ok r) :
    Made c r.next r.value.roots := by
  cases passed_of_opaqueStatement h with
  | mk took _ more =>
    obtain ⟨pre, took'⟩ := took_of_skipRest more
    exact (took.cons took').made

/-! ### Statements with others inside -/

/-- With fewer than `n` tokens ahead, what the parser of statements accepts holds its expressions. -/
structure Outlines (n : Nat) : Prop where
  statement : ∀ {c : Cursor} {r : Read (Option Stmt) c.size}, c.size < n → statement c = .ok r →
    Made c r.next (Stmt.rootsOfList r.value.toList)
  branch : ∀ {c : Cursor} {r : Read (Branch × Span) c.size}, c.size < n → branch c = .ok r →
    Made c r.next (Stmt.rootsOfBranches [r.value.1])
  alternatives : ∀ {c : Cursor} {stop : Span} {r : Peeked Alternatives c.size}, c.size < n →
    alternatives stop c = .ok r → Made c r.next r.value.roots
  body : ∀ {c : Cursor} {r : Peeked (List Stmt × Span) c.size}, c.size < n → body c = .ok r →
    Made c r.next (Stmt.rootsOfList r.value.1)
  block : ∀ {c : Cursor} {r : Read (List Stmt × Span) c.size}, c.size < n → block c = .ok r →
    Made c r.next (Stmt.rootsOfList r.value.1)

/-- What holds below a bound holds below each smaller one. -/
theorem Outlines.mono {m n : Nat} (h : Outlines n) (le : m ≤ n) : Outlines m where
  statement lt := h.statement (Nat.lt_of_lt_of_le lt le)
  branch lt := h.branch (Nat.lt_of_lt_of_le lt le)
  alternatives lt := h.alternatives (Nat.lt_of_lt_of_le lt le)
  body lt := h.body (Nat.lt_of_lt_of_le lt le)
  block lt := h.block (Nat.lt_of_lt_of_le lt le)

/-- A branch is made of its condition and the expressions of its body. -/
theorem made_of_branch (ih : Outlines c.size) {r : Read (Branch × Span) c.size}
    (h : branch c = .ok r) : Made c r.next (Stmt.rootsOfBranches [r.value.1]) := by
  cases branched_of_branch h with
  | @mk o x paren condition close run took opens inner took' closes lt inside =>
    have front := made_of_inner took (by simp [opens]) inner
    have whole := (front.behind took'.made).trans (ih.body lt inside)
    show Made c run.next (.inner condition.value :: (Stmt.rootsOfList run.value.1 ++ []))
    rw [List.append_nil]
    exact whole

/-- A branch in front of alternatives adds its expressions in front of theirs. -/
theorem roots_addBranch (b : Branch) (a : Alternatives) :
    (a.addBranch b).roots = Stmt.rootsOfBranches [b] ++ a.roots := by
  obtain ⟨condition, body⟩ := b
  simp [Stmt.rootsOfBranches, Alternatives.roots, Alternatives.addBranch]

/-- The alternatives of a conditional are made of their expressions. -/
theorem made_of_alternatives (ih : Outlines c.size) {stop : Span} {r : Peeked Alternatives c.size}
    (h : alternatives stop c = .ok r) : Made c r.next r.value.roots := by
  cases continued_of_alternatives h with
  | nothing => exact .refl c
  | @branch us d next more r took _ _ lt one others value behind =>
    rw [value, behind, roots_addBranch]
    have rest := ih.alternatives (Nat.lt_trans next.shorter lt) others
    exact took.before ((ih.branch lt one).trans rest)
  | @otherwise t run n took word inside => exact took.before (ih.body t.shorter inside)

/-- The expressions of a conditional are those of its first branch and those of the alternatives. -/
theorem roots_conditional (s : Span) (b : Branch) (a : Alternatives) :
    (Stmt.conditional s (b :: a.branches) a.otherwise).roots = Stmt.rootsOfBranches [b] ++ a.roots := by
  obtain ⟨condition, body⟩ := b
  obtain ⟨branches, otherwise, stop⟩ := a
  cases otherwise <;> simp [Stmt.roots, Stmt.rootsOfBranches, Alternatives.roots]

/-- A statement with a grammar is made of its expressions. -/
theorem made_of_structured (ih : Outlines c.size) {r : Read Stmt c.size} (h : structured c = .ok r) :
    Made c r.next r.value.roots := by
  cases structured_cases h with
  | @conditional name t first more took kind one others =>
    have rest := ih.alternatives (Nat.lt_trans first.shorter t.shorter) others
    have whole := took.before ((ih.branch t.shorter one).trans rest)
    rw [← roots_conditional] at whole
    exact whole
  | word took kind worded => exact worded.made took (by simp [kind])
  | assignment h => exact made_of_assignment h
  | expression word h => exact made_of_expressionStatement word h

/-- A statement is made of its expressions, also one that has none. -/
theorem made_of_statement (ih : Outlines c.size) {r : Read (Option Stmt) c.size}
    (h : statement c = .ok r) : Made c r.next (Stmt.rootsOfList r.value.toList) := by
  have one : ∀ {s : Stmt} {next : Cursor}, Made c next s.roots →
      Made c next (Stmt.rootsOfList [s]) := by
    intro s next made
    rw [Stmt.rootsOfList, Stmt.rootsOfList, List.append_nil]
    exact made
  cases stated_of_statement h with
  | separator took kind => exact took.made
  | html took kind => exact took.made
  | @block t run took opens inside => exact one (took.before (ih.block t.shorter inside))
  | grammar result => exact one (made_of_structured ih result)
  | skipped head result => exact one (made_of_skipped result)

/-- A body is made of the expressions of its statements. -/
theorem made_of_body (ih : Outlines c.size) {r : Peeked (List Stmt × Span) c.size}
    (h : body c = .ok r) : Made c r.next (Stmt.rootsOfList r.value.1) := by
  cases bodied_of_body h with
  | @block brace run took opens inside => exact took.before (ih.block brace.shorter inside)
  | nothing => exact .refl c
  | single result => exact made_of_statement ih result

/-- A block is made of the expressions of its statements. -/
theorem made_of_block (ih : Outlines c.size) {r : Read (List Stmt × Span) c.size}
    (h : block c = .ok r) : Made c r.next (Stmt.rootsOfList r.value.1) := by
  cases braced_of_block h with
  | close took closes => exact took.made
  | @more s rest result others =>
    have whole := (made_of_statement ih result).trans (ih.block s.shorter others)
    rwa [← Stmt.rootsOfList_append] at whole

/-- All that is read is made of its expressions, however many tokens are ahead. By induction on their
number. -/
theorem outlines (n : Nat) : Outlines n := by
  induction n with
  | zero =>
    exact ⟨fun lt ↦ absurd lt (Nat.not_lt_zero _), fun lt ↦ absurd lt (Nat.not_lt_zero _),
      fun lt ↦ absurd lt (Nat.not_lt_zero _), fun lt ↦ absurd lt (Nat.not_lt_zero _),
      fun lt ↦ absurd lt (Nat.not_lt_zero _)⟩
  | succ n ih =>
    have below : ∀ {c : Cursor}, c.size < n + 1 → Outlines c.size := fun lt ↦
      ih.mono (Nat.le_of_lt_succ lt)
    exact {
      statement := fun lt h ↦ made_of_statement (below lt) h
      branch := fun lt h ↦ made_of_branch (below lt) h
      alternatives := fun lt h ↦ made_of_alternatives (below lt) h
      body := fun lt h ↦ made_of_body (below lt) h
      block := fun lt h ↦ made_of_block (below lt) h }

/-- The tokens of a script hold the expressions of its statements. -/
theorem holds_of_statements {c : Cursor} {ss : List Stmt} (h : statements c = .ok ss) :
    Holds [] c.rest (Stmt.rootsOfList ss) := by
  rcases cases_of_statements h with ⟨none, rfl⟩ | ⟨s, more, result, others, rfl⟩
  · rw [none]
    exact .nil
  · have lt := s.shorter
    have rest := holds_of_statements others
    obtain ⟨pre, took, holds⟩ := made_of_statement (outlines _) result
    rw [took.rest, Stmt.rootsOfList_append]
    refine Holds.append ?_ rest
    rwa [List.append_nil]
termination_by c.size

end Script

end ConfigScript
