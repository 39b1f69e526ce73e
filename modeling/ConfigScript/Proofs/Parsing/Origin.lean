import ConfigScript.Proofs.Parsing.Tree

/-!
# Where statements come from

Wherever a statement stands in a syntax tree, it was read by its grammar from some of the tokens on
(`Stmt.Stems`, `stems_of_statements`). So what the grammar of a single statement tells holds of every
statement of a script, and the recursion through blocks and branches is done once, here.
-/

namespace ConfigScript

open Script

/-- A block, text outside of the script, or a skipped statement. These have no grammar of their own. -/
def Stmt.isBare : Stmt → Bool
  | .block .. | .inlineHtml _ | .opaqueStmt _ => true
  | _ => false

/-- The statement is read by its grammar where some of the tokens are ahead, unless it has none. -/
def Stmt.Stems (ts : List Token) (n : Stmt) : Prop :=
  n.isBare = false → ∃ (c : Cursor) (r : Read Stmt c.size),
    c.rest <:+ ts ∧ structured c = .ok r ∧ r.value = n

namespace Script

variable {c d : Cursor} {ts us : List Token} {ns ms : List Stmt}

theorem Took.suffix {pre : List Token} (h : Took c pre d) : d.rest <:+ c.rest := by
  rw [h.rest]
  exact List.suffix_append pre d.rest

theorem Made.suffix {rs : List Root} (h : Made c d rs) : d.rest <:+ c.rest := by
  obtain ⟨pre, took, -⟩ := h
  exact took.suffix

/-- All of the statements stem from the tokens. -/
def StemAll (ts : List Token) (ns : List Stmt) : Prop := ∀ n ∈ ns, n.Stems ts

namespace StemAll

theorem nil (ts : List Token) : StemAll ts [] := List.forall_mem_nil _

theorem mono (h : StemAll us ns) (part : us <:+ ts) : StemAll ts ns := fun n hn own ↦ by
  obtain ⟨c, r, here, read, same⟩ := h n hn own
  exact ⟨c, r, here.trans part, read, same⟩

theorem append (h : StemAll ts ns) (h' : StemAll ts ms) : StemAll ts (ns ++ ms) := fun n hn ↦
  (List.mem_append.1 hn).elim (h n) (h' n)

theorem cons {n : Stmt} (own : n.Stems ts) (h : StemAll ts ns) : StemAll ts (n :: ns) :=
  List.forall_mem_cons.2 ⟨own, h⟩

/-- A statement without others inside. -/
theorem single {n : Stmt} (flat : n.nodes = [n]) (own : n.Stems ts) : StemAll ts n.nodes := by
  rw [flat]
  exact .cons own (.nil ts)

end StemAll

/-! ### Statements that are no assignments -/

/-- Neither an assignment nor around other statements. -/
def isOther : Stmt → Bool
  | .assign .. | .conditional .. | .block .. => false
  | _ => true

/-- A statement that is an expression is no assignment and has none inside. -/
theorem isOther_of_expressionStatement {r : Read Stmt c.size} (h : expressionStatement c = .ok r) :
    isOther r.value := by
  cases expressed_of_expressionStatement h with
  | mk => rfl

/-- A statement that ends a script is no assignment and has none inside. -/
theorem isOther_of_ending {stmt : Span → Stmt} (ending : stmt ∈ [Stmt.ret, .exit]) (s : Span) :
    isOther (stmt s) := by
  simp only [List.mem_cons, List.not_mem_nil, or_false] at ending
  rcases ending with rfl | rfl <;> rfl

/-- A statement that begins with a word is no assignment and has none inside. -/
theorem Worded.isOther {t : Token} {r : Peeked Stmt c.size} (h : Worded t r) : isOther r.value := by
  cases h with
  | load | const | unset | global => rfl
  | bare ending | ending ending => exact isOther_of_ending ending _

/-- A statement that is skipped is opaque. -/
theorem exists_of_skipped {r : Read Stmt c.size} (h : opaqueStatement c = .ok r) :
    ∃ s, r.value = .opaqueStmt s := by
  cases passed_of_opaqueStatement h with
  | mk => exact ⟨_, rfl⟩

theorem nodes_of_isOther {s : Stmt} (h : isOther s) : s.nodes = [s] := by
  cases s <;> first | rfl | cases h

/-- What is read as an assignment is one. -/
theorem exists_of_assignment {r : Read Stmt c.size} (h : assignment? c = .ok (some r)) :
    ∃ s op t e, r.value = .assign s op t e := by
  cases assigned_of_assignment h with
  | mk => exact ⟨_, _, _, _, rfl⟩

/-! ### Statements with others inside -/

/-- With fewer than `n` tokens ahead, the statements that the parser accepts stem from what is ahead. -/
structure StemsBelow (n : Nat) : Prop where
  branch : ∀ {c : Cursor} {r : Read (Branch × Span) c.size}, c.size < n → branch c = .ok r →
    StemAll c.rest (Stmt.nodesOfBranches [r.value.1])
  alternatives : ∀ {c : Cursor} {stop : Span} {r : Peeked Alternatives c.size}, c.size < n →
    alternatives stop c = .ok r → StemAll c.rest (Stmt.nodesOfBranches r.value.branches) ∧
      StemAll c.rest (Stmt.nodesOfList (r.value.otherwise.getD []))
  body : ∀ {c : Cursor} {r : Peeked (List Stmt × Span) c.size}, c.size < n → body c = .ok r →
    StemAll c.rest (Stmt.nodesOfList r.value.1)
  block : ∀ {c : Cursor} {r : Read (List Stmt × Span) c.size}, c.size < n → block c = .ok r →
    StemAll c.rest (Stmt.nodesOfList r.value.1)

/-- What holds below a bound holds below each smaller one. -/
theorem StemsBelow.mono {m n : Nat} (h : StemsBelow n) (le : m ≤ n) : StemsBelow m where
  branch lt := h.branch (Nat.lt_of_lt_of_le lt le)
  alternatives lt := h.alternatives (Nat.lt_of_lt_of_le lt le)
  body lt := h.body (Nat.lt_of_lt_of_le lt le)
  block lt := h.block (Nat.lt_of_lt_of_le lt le)

/-- The statements of branches are those of the first and those of the others. -/
theorem nodesOfBranches_cons (b : Branch) (bs : List Branch) :
    Stmt.nodesOfBranches (b :: bs) = Stmt.nodesOfBranches [b] ++ Stmt.nodesOfBranches bs := by
  obtain ⟨condition, body⟩ := b
  simp [Stmt.nodesOfBranches]

/-- The statements in a branch stem from what is ahead. -/
theorem stems_of_branch (ih : StemsBelow c.size) {r : Read (Branch × Span) c.size}
    (h : branch c = .ok r) : StemAll c.rest (Stmt.nodesOfBranches [r.value.1]) := by
  cases branched_of_branch h with
  | @mk o x paren condition close run took opens inner took' closes lt inside =>
    have front := (made_of_inner took (by simp [opens]) inner).trans took'.made
    show StemAll c.rest (Stmt.nodesOfList run.value.1 ++ [])
    rw [List.append_nil]
    exact (ih.body lt inside).mono front.suffix

/-- The statements in the alternatives of a conditional stem from what is ahead. -/
theorem stems_of_alternatives (ih : StemsBelow c.size) {stop : Span}
    {r : Peeked Alternatives c.size} (h : alternatives stop c = .ok r) :
    StemAll c.rest (Stmt.nodesOfBranches r.value.branches) ∧
      StemAll c.rest (Stmt.nodesOfList (r.value.otherwise.getD [])) := by
  cases continued_of_alternatives h with
  | nothing => exact ⟨.nil _, .nil _⟩
  | @branch us d next more r took _ _ lt one others value behind =>
    have rest := ((outlines _).branch (Nat.lt_succ_self _) one).suffix.trans took.suffix
    obtain ⟨branches, otherwise⟩ := ih.alternatives (Nat.lt_trans next.shorter lt) others
    rw [value]
    show StemAll c.rest (Stmt.nodesOfBranches (next.value.1 :: more.value.branches)) ∧
      StemAll c.rest (Stmt.nodesOfList (more.value.otherwise.getD []))
    rw [nodesOfBranches_cons]
    exact ⟨((ih.branch lt one).mono took.suffix).append (branches.mono rest), otherwise.mono rest⟩
  | @otherwise t run n took word inside =>
    exact ⟨.nil _, (ih.body t.shorter inside).mono took.suffix⟩

/-- A statement with a grammar and those inside it stem from what is ahead. -/
theorem stems_of_structured (ih : StemsBelow c.size) {r : Read Stmt c.size}
    (h : structured c = .ok r) : StemAll c.rest r.value.nodes := by
  have own : r.value.Stems c.rest := fun _ ↦ ⟨c, r, List.suffix_refl _, h, rfl⟩
  cases structured_cases h with
  | @conditional name t first more took kind one others =>
    have front := took.suffix
    have behind := ((outlines _).branch (Nat.lt_succ_self _) one).suffix.trans front
    obtain ⟨branches, otherwise⟩ :=
      ih.alternatives (Nat.lt_trans first.shorter t.shorter) others
    have inside := ((ih.branch t.shorter one).mono front).append (branches.mono behind)
    rw [← nodesOfBranches_cons] at inside
    show StemAll c.rest (Stmt.conditional (t.value.span.through more.value.stop)
      (first.value.1 :: more.value.branches) more.value.otherwise).nodes
    replace own : (Stmt.conditional (t.value.span.through more.value.stop)
      (first.value.1 :: more.value.branches) more.value.otherwise).Stems c.rest := own
    cases rest : more.value.otherwise with
    | none =>
      rw [rest] at own
      exact .cons own inside
    | some body =>
      rw [rest] at own otherwise
      exact .cons own (inside.append (otherwise.mono behind))
  | word took kind worded => exact .single (nodes_of_isOther worded.isOther) own
  | assignment h =>
    obtain ⟨s, op, target, e, same⟩ := exists_of_assignment h
    exact .single (by rw [same]; rfl) own
  | expression word h => exact .single (nodes_of_isOther (isOther_of_expressionStatement h)) own

/-- A statement and those inside it stem from what is ahead. -/
theorem stems_of_statement (ih : StemsBelow c.size) {r : Read (Option Stmt) c.size}
    (h : statement c = .ok r) : StemAll c.rest (Stmt.nodesOfList r.value.toList) := by
  have one : ∀ {s : Stmt}, StemAll c.rest s.nodes → StemAll c.rest (Stmt.nodesOfList [s]) := by
    intro s stems
    rwa [Stmt.nodesOfList, Stmt.nodesOfList, List.append_nil]
  cases stated_of_statement h with
  | separator => exact .nil _
  | html => exact one (.single rfl nofun)
  | @block t run took opens inside =>
    exact one (.cons nofun ((ih.block t.shorter inside).mono took.suffix))
  | grammar result => exact one (stems_of_structured ih result)
  | skipped head result =>
    obtain ⟨s, same⟩ := exists_of_skipped result
    have single : StemAll c.rest (Stmt.opaqueStmt s).nodes := .single rfl nofun
    exact one (same ▸ single)

/-- The statements of a body stem from what is ahead. -/
theorem stems_of_body (ih : StemsBelow c.size) {r : Peeked (List Stmt × Span) c.size}
    (h : body c = .ok r) : StemAll c.rest (Stmt.nodesOfList r.value.1) := by
  cases bodied_of_body h with
  | @block brace run took opens inside => exact (ih.block brace.shorter inside).mono took.suffix
  | nothing => exact .nil _
  | single result => exact stems_of_statement ih result

/-- The statements of a block stem from what is ahead. -/
theorem stems_of_block (ih : StemsBelow c.size) {r : Read (List Stmt × Span) c.size}
    (h : block c = .ok r) : StemAll c.rest (Stmt.nodesOfList r.value.1) := by
  cases braced_of_block h with
  | close => exact .nil _
  | @more s rest result others =>
    have behind := ((outlines _).statement (Nat.lt_succ_self _) result).suffix
    show StemAll c.rest (Stmt.nodesOfList (s.value.toList ++ rest.value.1))
    rw [Stmt.nodesOfList_append]
    exact (stems_of_statement ih result).append ((ih.block s.shorter others).mono behind)

/-- All that is read stems from what is ahead, however many tokens that are. By induction on their
number. -/
theorem stemsBelow (n : Nat) : StemsBelow n := by
  induction n with
  | zero =>
    exact ⟨fun lt ↦ absurd lt (Nat.not_lt_zero _), fun lt ↦ absurd lt (Nat.not_lt_zero _),
      fun lt ↦ absurd lt (Nat.not_lt_zero _), fun lt ↦ absurd lt (Nat.not_lt_zero _)⟩
  | succ n ih =>
    have below : ∀ {c : Cursor}, c.size < n + 1 → StemsBelow c.size := fun lt ↦
      ih.mono (Nat.le_of_lt_succ lt)
    exact {
      branch := fun lt h ↦ stems_of_branch (below lt) h
      alternatives := fun lt h ↦ stems_of_alternatives (below lt) h
      body := fun lt h ↦ stems_of_body (below lt) h
      block := fun lt h ↦ stems_of_block (below lt) h }

/-- The statements of a script, with all that are inside others, stem from its tokens. -/
theorem stems_of_statements {c : Cursor} {ss : List Stmt} (h : statements c = .ok ss) :
    StemAll c.rest (Stmt.nodesOfList ss) := by
  rcases cases_of_statements h with ⟨-, rfl⟩ | ⟨s, more, result, others, rfl⟩
  · exact .nil _
  · have lt := s.shorter
    have behind := ((outlines _).statement (Nat.lt_succ_self _) result).suffix
    rw [Stmt.nodesOfList_append]
    exact (stems_of_statement (stemsBelow _) result).append
      ((stems_of_statements others).mono behind)
termination_by c.size

end Script

end ConfigScript
