import ConfigScript.Edit.Change
import ConfigScript.Proofs.Parsing.Ended

/-!
# The statements of what is found

The statements of the definitions that are found in a script stand one behind the other, those of one
statement aside (`Occurrence.owned_inStmts`). Of neighbours that share a statement the first is kept, so
a removal cuts out every statement once (`Edit.chain_of_owned`).
-/

namespace ConfigScript

open Script

/-- What a statement is made up of stands in order in it. Of its span holds `P` if it is read by a grammar
and holds no others. -/
structure Stmt.Orderly (P : Span → Prop) (n : Stmt) : Prop where
  inOrder : InOrder n.span.start n.span.stop n.parts
  owner : isFlat n → n.isBare = false → P n.span

namespace Occurrence

/-- The statements of occurrences stand one behind the other between `lo` and `hi`, and of each holds
`P`. Occurrences in a row may share theirs. -/
structure Owned (P : Span → Prop) (lo hi : Nat) (os : List Occurrence) : Prop where
  owner : ∀ o ∈ os, ∀ s ∈ o.statement, lo ≤ s.start ∧ s.stop ≤ hi ∧ P s
  apart : os.Pairwise fun o o' ↦ ∀ s ∈ o.statement, ∀ s' ∈ o'.statement, s = s' ∨ s.stop ≤ s'.start

namespace Owned

variable {P : Span → Prop} {lo m hi : Nat} {os os' : List Occurrence}

/-- Occurrences without statements of their own are owned. -/
theorem of_none (none : ∀ o ∈ os, o.statement = none) : Owned P lo hi os where
  owner o ho s hs := by
    rw [none o ho] at hs
    cases hs
  apart := List.pairwise_of_forall_mem_list fun o ho _ _ s hs ↦ by
    rw [none o ho] at hs
    cases hs

/-- All of them share one statement. -/
theorem of_one {s : Span} (holds : P s) (one : ∀ o ∈ os, ∀ t ∈ o.statement, t = s) :
    Owned P s.start s.stop os where
  owner o ho t ht := by
    obtain rfl := one o ho t ht
    exact ⟨Nat.le_refl _, Nat.le_refl _, holds⟩
  apart := List.pairwise_of_forall_mem_list fun o ho o' ho' t ht t' ht' ↦
    .inl ((one o ho t ht).trans (one o' ho' t' ht').symm)

/-- What is owned within bounds is so within wider ones. -/
theorem mono {lo' hi' : Nat} (h : Owned P lo hi os) (le : lo' ≤ lo) (le' : hi ≤ hi') :
    Owned P lo' hi' os where
  owner o ho s hs := by
    obtain ⟨low, high, holds⟩ := h.owner o ho s hs
    exact ⟨by omega, by omega, holds⟩
  apart := h.apart

/-- Occurrences owned within bounds are so with those of the bounds behind. -/
theorem append (h : Owned P lo m os) (h' : Owned P m hi os') (le : lo ≤ m) (le' : m ≤ hi) :
    Owned P lo hi (os ++ os') where
  owner := List.forall_mem_append.2
    ⟨(h.mono (Nat.le_refl _) le').owner, (h'.mono le (Nat.le_refl _)).owner⟩
  apart := List.pairwise_append.2 ⟨h.apart, h'.apart, fun o ho o' ho' s hs s' hs' ↦ .inr
    (Nat.le_trans (h.owner o ho s hs).2.1 (h'.owner o' ho' s' hs').1)⟩

end Owned

theorem statement_of_inExpr {name : String} {statement : Option Span} {e : Expr} :
    ∀ o ∈ inExpr name statement e, o.statement = statement := by
  intro o ho
  obtain ⟨v, -, rfl⟩ := List.mem_map.1 ho
  rfl

/-- What a declaration defines has the declaration as its statement, or none. -/
theorem statement_of_inDeclaration {name : String} {statement : Span} {items : List ConstItem} :
    ∀ o ∈ inDeclaration name statement items, ∀ s ∈ o.statement, s = statement := by
  intro o ho s hs
  obtain ⟨i, -, rfl⟩ := List.mem_map.1 ho
  dsimp only at hs
  split at hs
  · exact (Option.some.inj hs).symm
  · cases hs

/-- What an assignment defines has the assignment as its statement, or none. -/
theorem statement_of_inAssignment {name : String} {statement : Span} {op : AssignOp} {t : Target}
    {e : Expr} : ∀ o ∈ inAssignment name statement op t e, ∀ s ∈ o.statement, s = statement := by
  intro o ho s hs
  unfold inAssignment at ho
  split at ho
  · obtain rfl := List.mem_singleton.1 ho
    exact (Option.some.inj hs).symm
  · cases ho

/-! ### Trees -/

variable {P : Span → Prop} {kind : EntryKind} {name : String}

mutual

/-- What is found in a statement is owned within its span. By recursion on the statement; what is in a
conditional or block is owned by statements inside. -/
theorem owned_inStmt {s : Stmt} (orderly : ∀ n ∈ s.nodes, n.Orderly P)
    (le : s.span.start ≤ s.span.stop) : Owned P s.span.start s.span.stop (inStmt kind name s) := by
  have here := orderly s s.mem_nodes
  -- Only statements without others inside own what is found in them.
  match s with
  | .conditional sp bs none =>
    have parts : bs.flatMap Branch.parts ++ [] = (Stmt.conditional sp bs none).parts := rfl
    rw [List.append_nil] at parts
    exact owned_inBranches (parts ▸ here.inOrder) fun n hn ↦ orderly n (List.mem_cons_of_mem _ hn)
  | .conditional sp bs (some body) =>
    obtain ⟨m, low, high, front, back⟩ := InOrder.split
      (show InOrder _ _ (bs.flatMap Branch.parts ++ body.map Stmt.span) from here.inOrder) le
    have first := owned_inBranches front fun n hn ↦
      orderly n (List.mem_cons_of_mem _ (List.mem_append_left _ hn))
    have second := owned_inStmts back fun n hn ↦
      orderly n (List.mem_cons_of_mem _ (List.mem_append_right _ hn))
    exact first.append second low high
  | .block sp body =>
    exact owned_inStmts here.inOrder fun n hn ↦ orderly n (List.mem_cons_of_mem _ hn)
  | .expr sp e =>
    show Owned P sp.start sp.stop (if kind = .const then inExpr name (some sp) e else [])
    split
    · exact .of_one (here.owner rfl rfl) fun o ho t ht ↦ by
        rw [statement_of_inExpr o ho] at ht
        exact (Option.some.inj ht).symm
    · exact .of_none (List.forall_mem_nil _)
  | .const sp items =>
    show Owned P sp.start sp.stop (if kind = .const then inDeclaration name sp items else [])
    split
    · exact .of_one (here.owner rfl rfl) statement_of_inDeclaration
    · exact .of_none (List.forall_mem_nil _)
  | .assign sp op t e =>
    cases kind with
    | const => exact .of_none statement_of_inExpr
    | var => exact .of_one (here.owner rfl rfl) statement_of_inAssignment
    | inclusion => exact .of_none (List.forall_mem_nil _)
  | .load .. | .unset .. | .global .. | .ret _ | .exit _ | .inlineHtml _ | .opaqueStmt _ =>
    exact .of_none (List.forall_mem_nil _)

/-- What is found in statements in order is owned within their bounds. -/
theorem owned_inStmts {lo hi : Nat} {ss : List Stmt} (inOrder : InOrder lo hi (ss.map Stmt.span))
    (orderly : ∀ n ∈ Stmt.nodesOfList ss, n.Orderly P) :
    Owned P lo hi (inStmts kind name ss) := by
  match ss with
  | [] => exact .of_none (List.forall_mem_nil _)
  | s :: ss =>
    obtain ⟨low, some, high⟩ := inOrder.within _ List.mem_cons_self
    have first := owned_inStmt (fun n hn ↦ orderly n (List.mem_append_left _ hn)) (Nat.le_of_lt some)
    have others := owned_inStmts inOrder.tail fun n hn ↦ orderly n (List.mem_append_right _ hn)
    exact (first.mono low (Nat.le_refl _)).append others (by omega) high

/-- What is found in branches in order is owned within their bounds. -/
theorem owned_inBranches {lo hi : Nat} {bs : List Branch}
    (inOrder : InOrder lo hi (bs.flatMap Branch.parts))
    (orderly : ∀ n ∈ Stmt.nodesOfBranches bs, n.Orderly P) :
    Owned P lo hi (inBranches kind name bs) := by
  match bs with
  | [] => exact .of_none (List.forall_mem_nil _)
  | .mk condition body :: bs =>
    obtain ⟨low, some, high⟩ := inOrder.within _ List.mem_cons_self
    obtain ⟨m, low', high', front, back⟩ := InOrder.split
      (show InOrder _ _ (body.map Stmt.span ++ bs.flatMap Branch.parts) from inOrder.tail) high
    have first : Owned P lo condition.span.stop
        (if kind = .const then inExpr name none condition else []) := .of_none fun o ho ↦ by
      split at ho
      · exact statement_of_inExpr o ho
      · cases ho
    have inside := owned_inStmts front fun n hn ↦ orderly n (List.mem_append_left _ hn)
    have others := owned_inBranches back fun n hn ↦ orderly n (List.mem_append_right _ hn)
    exact (first.append inside (by omega) low').append others (by omega) high'

end

/-- Of neighbours that share a statement only the first is kept. -/
theorem chain_firstPerStatement {R : Span → Span → Prop} {os : List Occurrence}
    (apart : os.Pairwise fun o o' ↦ ∀ s ∈ o.statement, ∀ s' ∈ o'.statement, s = s' ∨ R s s') :
    (firstPerStatement os).IsChain fun o o' ↦ ∀ s ∈ o.statement, ∀ s' ∈ o'.statement, R s s' := by
  fun_induction firstPerStatement os with
  | case1 a b rest same ih => exact ih (apart.sublist (.cons_cons a (List.sublist_cons_self b rest)))
  | case2 a b rest other ih =>
    refine (ih apart.of_cons).cons fun o ho s hs s' hs' ↦ ?_
    rw [head_firstPerStatement] at ho
    obtain rfl := Option.some.inj ho
    refine ((List.pairwise_cons.1 apart).1 b List.mem_cons_self s hs s' hs').resolve_left ?_
    rintro rfl
    exact other (by rw [show b.statement = _ from hs', show a.statement = _ from hs]; simp)
  | case3 os short =>
    rcases os with - | ⟨a, - | ⟨b, rest⟩⟩
    · exact .nil
    · exact .singleton a
    · exact absurd rfl (short a b rest)

theorem sublist_firstPerStatement (os : List Occurrence) : (firstPerStatement os).Sublist os := by
  fun_induction firstPerStatement os with
  | case1 a b rest same ih => exact ih.trans (.cons_cons a (List.sublist_cons_self b rest))
  | case2 a b rest other ih => exact ih.cons_cons a
  | case3 => exact .refl _

end Occurrence

end ConfigScript
