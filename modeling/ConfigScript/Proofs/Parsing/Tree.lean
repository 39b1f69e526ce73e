import ConfigScript.Proofs.Parsing.Placed
import ConfigScript.Proofs.Patching.Patch
import Mathlib

/-!
# What is in a syntax tree

The statements of a script with all that are inside others (`Stmt.nodesOfList`), and what a statement
itself holds: expressions, names that it declares and targets that it changes. So it can be counted how
often a script defines something, wherever that is (`definitions`); what an edit finds is among it
(`Occurrence.definitions_pos_of_inStmts`).
-/

namespace ConfigScript

open Script

/-! ### Statements inside others -/

namespace Stmt

mutual

/-- The statement and all statements inside it, in source order. -/
def nodes : Stmt → List Stmt
  | .conditional s bs none => .conditional s bs none :: nodesOfBranches bs
  | .conditional s bs (some body) =>
    .conditional s bs (some body) :: (nodesOfBranches bs ++ nodesOfList body)
  | .block s body => .block s body :: nodesOfList body
  | s => [s]

/-- The statements inside statements. -/
def nodesOfList : List Stmt → List Stmt
  | [] => []
  | s :: ss => nodes s ++ nodesOfList ss

/-- The statements inside branches. -/
def nodesOfBranches : List Branch → List Stmt
  | [] => []
  | .mk _ body :: bs => nodesOfList body ++ nodesOfBranches bs

end

/-- The statements of a list are those of its first part and those of the others. -/
theorem nodesOfList_append (as bs : List Stmt) :
    nodesOfList (as ++ bs) = nodesOfList as ++ nodesOfList bs := by
  induction as with
  | nil => rfl
  | cons s as ih => rw [List.cons_append, nodesOfList, nodesOfList, ih, List.append_assoc]

/-- A statement is among those inside it, itself included. -/
theorem mem_nodes (s : Stmt) : s ∈ s.nodes := by
  match s with
  | .conditional _ _ none | .conditional _ _ (some _) | .block _ _ =>
    rw [nodes]
    exact List.mem_cons_self
  | .expr .. | .assign .. | .const .. | .load .. | .unset .. | .global .. | .ret _ | .exit _
  | .inlineHtml _ | .opaqueStmt _ => exact List.mem_singleton_self _

end Stmt

/-- The expressions in the indices of a target. -/
def Target.exprs (t : Target) : List Expr := t.indices.filterMap id

/-- The expressions of a target are those in its brackets. -/
theorem Target.exprs_eq_roots (t : Target) : t.roots.map Root.expr = t.exprs := by
  unfold roots exprs
  induction t.indices with
  | nil => rfl
  | cons i is ih => cases i <;> simp [ih, Root.expr]

/-- The condition of a branch. -/
def Branch.condition : Branch → Expr
  | .mk c _ => c

namespace Stmt

/-- The expressions that a statement holds outside of the statements inside it. -/
def exprs : Stmt → List Expr
  | .expr _ e => [e]
  | .assign _ _ t e => t.exprs ++ [e]
  | .const _ is => is.map (·.value)
  | .load _ _ p => [p]
  | .conditional _ bs _ => bs.map Branch.condition
  | .unset _ ts => ts.flatMap Target.exprs
  | _ => []

/-- The constants that a statement declares. -/
def declared : Stmt → List ConstItem
  | .const _ is => is
  | _ => []

/-- The variables that a statement assigns or unsets. -/
def targets : Stmt → List Target
  | .assign _ _ t _ => [t]
  | .unset _ ts => ts
  | _ => []

/-- Whether the statement loads another file. -/
def isLoad : Stmt → Bool
  | .load .. => true
  | _ => false

mutual

/-- The expressions of a statement and of those inside it are its roots. -/
theorem mem_roots {s n : Stmt} {e : Expr} (mem : n ∈ s.nodes) (own : e ∈ n.exprs) :
    e ∈ s.roots.map Root.expr := by
  match s with
  | .conditional sp bs none =>
    rcases List.mem_cons.1 mem with rfl | mem
    · exact mem_rootsOfBranches_condition own
    · exact mem_rootsOfBranches (show n ∈ nodesOfBranches bs from mem) own
  | .conditional sp bs (some body) =>
    rw [roots, List.map_append]
    rcases List.mem_cons.1 mem with rfl | mem
    · exact List.mem_append_left _ (mem_rootsOfBranches_condition own)
    · rcases List.mem_append.1 mem with mem | mem
      · exact List.mem_append_left _ (mem_rootsOfBranches mem own)
      · exact List.mem_append_right _ (mem_rootsOfList mem own)
  | .block sp body =>
    rcases List.mem_cons.1 mem with rfl | mem
    · cases own
    · exact mem_rootsOfList (show n ∈ nodesOfList body from mem) own
  | .expr sp e' =>
    obtain rfl := List.mem_singleton.1 mem
    exact own
  | .assign sp op t e' =>
    obtain rfl := List.mem_singleton.1 mem
    rw [roots, List.map_append, Target.exprs_eq_roots]
    rcases List.mem_append.1 own with own | own
    · exact List.mem_append_left _ own
    · refine List.mem_append_right _ ?_
      obtain rfl := List.mem_singleton.1 own
      split <;> exact List.mem_singleton_self _
  | .const sp is =>
    obtain rfl := List.mem_singleton.1 mem
    rw [roots, List.map_map]
    exact own
  | .load sp kind p =>
    obtain rfl := List.mem_singleton.1 mem
    exact own
  | .unset sp ts =>
    obtain rfl := List.mem_singleton.1 mem
    rw [roots, List.map_flatMap]
    simp only [Target.exprs_eq_roots]
    exact own
  | .global .. | .ret _ | .exit _ | .inlineHtml _ | .opaqueStmt _ =>
    obtain rfl := List.mem_singleton.1 mem
    cases own

/-- An expression of a statement inside others is an outermost expression of the list. -/
theorem mem_rootsOfList {ss : List Stmt} {n : Stmt} {e : Expr} (mem : n ∈ nodesOfList ss)
    (own : e ∈ n.exprs) : e ∈ (rootsOfList ss).map Root.expr := by
  match ss with
  | [] => cases mem
  | s :: ss =>
    rw [rootsOfList, List.map_append]
    rcases List.mem_append.1 mem with mem | mem
    · exact List.mem_append_left _ (mem_roots mem own)
    · exact List.mem_append_right _ (mem_rootsOfList mem own)

/-- An expression of a statement in branches is an outermost expression of these. -/
theorem mem_rootsOfBranches {bs : List Branch} {n : Stmt} {e : Expr} (mem : n ∈ nodesOfBranches bs)
    (own : e ∈ n.exprs) : e ∈ (rootsOfBranches bs).map Root.expr := by
  match bs with
  | [] => cases mem
  | .mk c body :: bs =>
    rw [rootsOfBranches, List.map_cons, List.map_append]
    refine List.mem_cons_of_mem _ ?_
    rcases List.mem_append.1 mem with mem | mem
    · exact List.mem_append_left _ (mem_rootsOfList mem own)
    · exact List.mem_append_right _ (mem_rootsOfBranches mem own)

/-- The condition of a branch is an outermost expression of the branches. -/
theorem mem_rootsOfBranches_condition {bs : List Branch} {e : Expr}
    (own : e ∈ bs.map Branch.condition) : e ∈ (rootsOfBranches bs).map Root.expr := by
  match bs with
  | [] => cases own
  | .mk c body :: bs =>
    rw [rootsOfBranches, List.map_cons, List.map_append]
    rcases List.mem_cons.1 own with rfl | own
    · exact List.mem_cons_self
    · exact List.mem_cons_of_mem _ (List.mem_append_right _ (mem_rootsOfBranches_condition own))

end

end Stmt

/-! ### Definitions -/

/-- How often an expression defines something. -/
def Expr.definitions (kind : EntryKind) (name : String) (e : Expr) : Nat :=
  match kind with
  | .const => e.nodes.countP fun n ↦ (Occurrence.definedValue? name n).isSome
  | _ => 0

/-- How often a statement, apart from those inside it, defines something. Whatever changes a variable
defines it. -/
def Stmt.definitions (kind : EntryKind) (name : String) (s : Stmt) : Nat :=
  (s.exprs.map (Expr.definitions kind name)).sum +
    match kind with
    | .const => s.declared.countP (·.name == name)
    | .var => s.targets.countP (·.name == name)
    | .inclusion => 0

/-- How often something is defined in a script, wherever that is. -/
def definitions (kind : EntryKind) (name : String) (ss : List Stmt) : Nat :=
  ((Stmt.nodesOfList ss).map (Stmt.definitions kind name)).sum

/-- How often something is defined in branches and their conditions. -/
def definitionsOfBranches (kind : EntryKind) (name : String) (bs : List Branch) : Nat :=
  ((bs.map Branch.condition).map (Expr.definitions kind name)).sum +
    ((Stmt.nodesOfBranches bs).map (Stmt.definitions kind name)).sum

section Counting

variable {kind : EntryKind} {name : String}

theorem definitions_cons (s : Stmt) (ss : List Stmt) : definitions kind name (s :: ss) =
    definitions kind name [s] + definitions kind name ss := by
  simp only [definitions, Stmt.nodesOfList, List.append_nil, List.map_append, List.sum_append_nat]

/-- Branches define what their first condition, its body and the others define. -/
theorem definitionsOfBranches_cons (c : Expr) (body : List Stmt) (bs : List Branch) :
    definitionsOfBranches kind name (.mk c body :: bs) =
      c.definitions kind name + definitions kind name body + definitionsOfBranches kind name bs := by
  simp only [definitionsOfBranches, definitions, Stmt.nodesOfBranches, List.map_append,
    List.sum_append_nat, List.map_cons, List.sum_cons, Branch.condition]
  omega

/-- A block defines what is in it. -/
theorem definitions_block (sp : Span) (body : List Stmt) :
    definitions kind name [.block sp body] = definitions kind name body := by
  have own : Stmt.definitions kind name (.block sp body) = 0 := by cases kind <;> rfl
  simp only [definitions, Stmt.nodesOfList, Stmt.nodes, List.append_nil, List.map_cons, List.sum_cons,
    own, Nat.zero_add]

/-- A conditional defines what its branches and its last alternative define. -/
theorem definitions_conditional (sp : Span) (bs : List Branch) (otherwise : Option (List Stmt)) :
    definitions kind name [.conditional sp bs otherwise] =
      definitionsOfBranches kind name bs + definitions kind name (otherwise.getD []) := by
  have own : Stmt.definitions kind name (.conditional sp bs otherwise) =
      ((bs.map Branch.condition).map (Expr.definitions kind name)).sum := by cases kind <;> rfl
  cases otherwise <;>
    simp only [definitions, definitionsOfBranches, Stmt.nodesOfList, Stmt.nodes, List.append_nil,
      List.map_cons, List.map_append, List.sum_cons, List.sum_append_nat, own, Option.getD_none,
      Option.getD_some, List.map_nil, List.sum_nil, Nat.add_zero, Nat.add_assoc]

/-- Where numbers add up to zero, each is zero. -/
theorem sum_eq_zero {ns : List Nat} (h : ns.sum = 0) {n : Nat} (mem : n ∈ ns) : n = 0 := by
  induction ns with
  | nil => cases mem
  | cons m ns ih =>
    rw [List.sum_cons] at h
    rcases List.mem_cons.1 mem with rfl | mem
    · omega
    · exact ih (by omega) mem

/-- Where nothing is defined, no statement defines it. -/
theorem definitions_eq_zero {ss : List Stmt} (h : definitions kind name ss = 0) {s : Stmt}
    (mem : s ∈ Stmt.nodesOfList ss) : s.definitions kind name = 0 :=
  sum_eq_zero h (List.mem_map_of_mem mem)

theorem Stmt.not_defines_expr {s : Stmt} (h : s.definitions kind name = 0) {e : Expr}
    (mem : e ∈ s.exprs) : e.definitions kind name = 0 :=
  sum_eq_zero (Nat.add_eq_zero_iff.1 h).1 (List.mem_map_of_mem mem)

/-- A statement that does not define a constant does not declare it. -/
theorem Stmt.not_defines_const {s : Stmt} (h : s.definitions .const name = 0) :
    ∀ i ∈ s.declared, i.name ≠ name := fun i hi ↦ by
  simpa using List.countP_eq_zero.1 (Nat.add_eq_zero_iff.1 h).2 i hi

/-- A statement that does not define a variable does not change it. -/
theorem Stmt.not_defines_var {s : Stmt} (h : s.definitions .var name = 0) :
    ∀ t ∈ s.targets, t.name ≠ name := fun t ht ↦ by
  simpa using List.countP_eq_zero.1 (Nat.add_eq_zero_iff.1 h).2 t ht

end Counting

namespace Occurrence

variable {kind : EntryKind} {name : String} {o : Occurrence}

/-- An expression in which an edit finds a name defines it. -/
theorem definitions_pos_of_inExpr {statement : Option Span} {e : Expr}
    (h : o ∈ inExpr name statement e) : 0 < e.definitions .const name := by
  obtain ⟨v, mem, rfl⟩ := List.mem_map.1 h
  obtain ⟨n, inside, value⟩ := List.mem_filterMap.1 mem
  exact List.countP_pos_iff.2 ⟨n, inside, by rw [value]; rfl⟩

mutual

/-- What is found in a statement is counted. -/
theorem definitions_pos_of_inStmt {s : Stmt} (h : o ∈ inStmt kind name s) :
    0 < definitions kind name [s] := by
  -- Where no others are inside, the statement itself is counted.
  have flat : s.nodes = [s] → definitions kind name [s] = s.definitions kind name := by
    intro single
    rw [definitions, Stmt.nodesOfList, single]
    simp [Stmt.nodesOfList]
  match s with
  | .conditional _ bs none =>
    rw [definitions_conditional]
    exact Nat.add_pos_left (definitions_pos_of_inBranches (show o ∈ inBranches kind name bs from h)) _
  | .conditional _ bs (some body) =>
    rw [definitions_conditional]
    rcases List.mem_append.1 h with h | h
    · exact Nat.add_pos_left (definitions_pos_of_inBranches h) _
    · exact Nat.add_pos_right _ (definitions_pos_of_inStmts h)
  | .block _ body =>
    rw [definitions_block]
    exact definitions_pos_of_inStmts (show o ∈ inStmts kind name body from h)
  | .expr s e =>
    rw [flat rfl]
    rw [inStmt] at h
    split at h
    · rename_i const
      subst const
      have found := definitions_pos_of_inExpr h
      simpa [Stmt.definitions, Stmt.exprs, Stmt.declared] using found
    · cases h
  | .const s is =>
    rw [flat rfl]
    rw [inStmt] at h
    split at h
    · rename_i const
      subst const
      obtain ⟨i, mem, rfl⟩ := List.mem_map.1 h
      obtain ⟨mem, named⟩ := List.mem_filter.1 mem
      exact Nat.add_pos_right _ (List.countP_pos_iff.2 ⟨i, mem, named⟩)
    · cases h
  | .assign s op t e =>
    rw [flat rfl]
    cases kind with
    | const =>
      have found := definitions_pos_of_inExpr (show o ∈ inExpr name none e from h)
      refine Nat.add_pos_left ?_ _
      rw [Stmt.exprs, List.map_append, List.sum_append_nat]
      exact Nat.add_pos_right _ (by simpa using found)
    | var =>
      replace h : o ∈ inAssignment name s op t e := h
      unfold inAssignment at h
      split at h
      · rename_i plain
        simp only [Bool.and_eq_true] at plain
        exact Nat.add_pos_right _
          (List.countP_pos_iff.2 ⟨t, List.mem_singleton_self _, plain.1.1⟩)
      · cases h
    | inclusion => cases h
  | .load .. | .unset .. | .global .. | .ret _ | .exit _ | .inlineHtml _ | .opaqueStmt _ => cases h

/-- Statements in which an edit finds a name define it. -/
theorem definitions_pos_of_inStmts {ss : List Stmt} (h : o ∈ inStmts kind name ss) :
    0 < definitions kind name ss := by
  match ss with
  | [] => cases h
  | s :: ss =>
    rw [definitions_cons]
    rcases List.mem_append.1 h with h | h
    · exact Nat.add_pos_left (definitions_pos_of_inStmt h) _
    · exact Nat.add_pos_right _ (definitions_pos_of_inStmts h)

/-- Branches in which an edit finds a name define it. -/
theorem definitions_pos_of_inBranches {bs : List Branch} (h : o ∈ inBranches kind name bs) :
    0 < definitionsOfBranches kind name bs := by
  match bs with
  | [] => cases h
  | .mk c body :: bs =>
    rw [definitionsOfBranches_cons]
    rcases List.mem_append.1 h with h | h
    · rcases List.mem_append.1 h with found | found
      · split at found
        · rename_i const
          subst const
          have := definitions_pos_of_inExpr found
          omega
        · cases found
      · have := definitions_pos_of_inStmts found
        omega
    · have := definitions_pos_of_inBranches h
      omega

end

end Occurrence

end ConfigScript
