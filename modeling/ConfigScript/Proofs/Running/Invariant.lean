import ConfigScript.Proofs.Parsing.Tree
import ConfigScript.Proofs.Running.Alike

/-!
# What statements keep

What holds of a scope holds behind statements, too, if it survives every definition that they contain
(`Invariant`). Two runs of statements with expressions of the same values do the same
(`Invariant.exec_same`); in particular one run, beside itself, keeps what holds. Statements that load no file do not fail.
-/

namespace ConfigScript

open Script

/-! ### Entries of a scope -/

namespace Scope

/-- The value that a scope holds under a name. -/
def value? (s : Scope) (kind : EntryKind) (name : String) : Option Value :=
  match kind with
  | .const => s.constant? name
  | .var => s.var? name
  | .inclusion => none

variable {s : Scope} {m n : String}

@[simp]
theorem vars_define (s : Scope) (n : String) (v : Value) : (s.define n v).2.vars = s.vars := by
  unfold define
  split <;> rfl

/-- A constant that is defined for the first time has its value. -/
theorem constant?_define_self (h : s.constant? n = none) (v : Value) :
    (s.define n v).2.constant? n = some v := by
  have new : Assoc.contains n s.constants = false := by
    rw [Assoc.contains, show Assoc.lookup n s.constants = none from h]
    rfl
  rw [define, new, if_neg Bool.false_ne_true]
  exact Assoc.lookup_insert_self n v _

/-- A definition leaves constants of other names alone. -/
theorem constant?_define_of_ne (h : m ≠ n) (s : Scope) (v : Value) :
    (s.define n v).2.constant? m = s.constant? m := by
  unfold define
  split
  · rfl
  · exact Assoc.lookup_insert_of_ne h v _

/-- A constant keeps its value. -/
theorem constant?_define_of_some {x : Value} (h : s.constant? m = some x) (n : String) (v : Value) :
    (s.define n v).2.constant? m = some x := by
  by_cases ne : m = n
  · subst ne
    have old : Assoc.contains m s.constants := by
      rw [Assoc.contains, show Assoc.lookup m s.constants = some x from h]
      rfl
    rw [define, if_pos old]
    exact h
  · rw [constant?_define_of_ne ne, h]

theorem var?_setVariable_self (s : Scope) (n : String) (v : Value) :
    (s.setVariable n v).var? n = some v := Assoc.lookup_insert_self n v _

theorem var?_setVariable_of_ne (h : m ≠ n) (s : Scope) (v : Value) :
    (s.setVariable n v).var? m = s.var? m := Assoc.lookup_insert_of_ne h v _

theorem var?_unsetVariable_of_ne (h : m ≠ n) (s : Scope) :
    (s.unsetVariable n).var? m = s.var? m := Assoc.lookup_erase_of_ne h _

end Scope

/-! ### Invariants -/

/-- What holds of scopes, and the names that may be defined without breaking it. -/
structure Invariant where
  holds : Scope → Prop
  constants : String → Prop
  vars : String → Prop
  define : ∀ n v s, constants n → holds s → holds (s.define n v).2
  setVariable : ∀ n v s, vars n → holds s → holds (s.setVariable n v)
  unsetVariable : ∀ n s, vars n → holds s → holds (s.unsetVariable n)

namespace Invariant

/-- A scope does not hold an entry, as long as that is not defined. -/
def lacks (kind : EntryKind) (name : String) : Invariant where
  holds s := s.value? kind name = none
  constants n := kind = .const → n ≠ name
  vars n := kind = .var → n ≠ name
  define n v s ne h := by
    cases kind with
    | const => exact (Scope.constant?_define_of_ne (ne rfl).symm s v).trans h
    | var =>
      show Assoc.lookup name (s.define n v).2.vars = none
      rw [Scope.vars_define]
      exact h
    | inclusion => rfl
  setVariable n v s ne h := by
    cases kind with
    | const => exact h
    | var => exact (Scope.var?_setVariable_of_ne (ne rfl).symm s v).trans h
    | inclusion => rfl
  unsetVariable n s ne h := by
    cases kind with
    | const => exact h
    | var => exact (Scope.var?_unsetVariable_of_ne (ne rfl).symm s).trans h
    | inclusion => rfl

/-- A scope holds an entry. A constant keeps its value whatever is defined. -/
def has (kind : EntryKind) (name : String) (x : Value) : Invariant where
  holds s := s.value? kind name = some x
  constants _ := True
  vars n := kind = .var → n ≠ name
  define n v s _ h := by
    cases kind with
    | const => exact Scope.constant?_define_of_some h n v
    | var =>
      show Assoc.lookup name (s.define n v).2.vars = some x
      rw [Scope.vars_define]
      exact h
    | inclusion => cases h
  setVariable n v s ne h := by
    cases kind with
    | const => exact h
    | var => exact (Scope.var?_setVariable_of_ne (ne rfl).symm s v).trans h
    | inclusion => cases h
  unsetVariable n s ne h := by
    cases kind with
    | const => exact h
    | var => exact (Scope.var?_unsetVariable_of_ne (ne rfl).symm s).trans h
    | inclusion => cases h

/-- The same scope twice, of which the invariant holds. -/
def likeness (I : Invariant) : Likeness where
  value := Eq
  scope s s' := s = s' ∧ I.holds s
  settled _ := False
  names := I.constants
  refl _ := rfl
  same_or_unknown _ _ h := .inl h
  vars _ _ h := h.1 ▸ rfl
  constants s _ h n := by
    obtain ⟨rfl, -⟩ := h
    cases s.constant? n with
    | none => exact .none
    | some v => exact .some rfl
  define n v _ s _ name alike h := by
    obtain ⟨rfl, holds⟩ := h
    subst alike
    exact ⟨rfl, I.define n v s name holds⟩
  define_settled _ _ _ _ h := h

variable (I : Invariant) {α β : Type}

/-- Two computations that do the same and keep the invariant. -/
abbrev Pure (x y : StateM Scope α) : Prop := I.likeness.Related Eq x y

/-- Two runs that do the same, do not fail and keep the invariant. -/
def Same (x y : Run α) : Prop :=
  ∀ s, I.holds s → ∃ a t, x.outcome s = (.ok a, t) ∧ y.outcome s = (.ok a, t) ∧ I.holds t

variable {I} {x y : Run α}

theorem Same.pure (a : α) : I.Same (pure a) (pure a) := fun s h ↦ ⟨a, s, rfl, rfl, h⟩

/-- Two runs that do the same, step by step, do the same together. -/
theorem Same.bind {f g : α → Run β} (h : I.Same x y) (more : ∀ a, I.Same (f a) (g a)) :
    I.Same (x >>= f) (y >>= g) := fun s hs ↦ by
  obtain ⟨a, t, hx, hy, ht⟩ := h s hs
  rw [Run.outcome_bind_ok hx, Run.outcome_bind_ok hy]
  exact more a t ht

/-- Two evaluations that do the same are runs that do the same. -/
theorem Same.lift {x y : StateM Scope α} (h : I.Pure x y) :
    I.Same (ExceptT.lift x) (ExceptT.lift y) := fun s hs ↦ by
  rcases h.alike s s ⟨rfl, hs⟩ with settled | ⟨same, state, holds⟩
  · exact settled.elim
  · refine ⟨_, _, Run.outcome_lift x s, ?_, holds⟩
    rw [Run.outcome_lift, same, state]

theorem Pure.get : I.Pure get get :=
  ⟨fun _ h ↦ h, fun _ _ h ↦ .inr ⟨h.1, h⟩⟩

theorem Pure.modify {g : Scope → Scope} (keeps : ∀ s, I.holds s → I.holds (g s)) :
    I.Pure (modify g) (modify g) :=
  ⟨fun _ h ↦ h, fun s _ h ↦ .inr ⟨rfl, h.1 ▸ rfl, keeps s h.2⟩⟩

/-! ### Statements -/

variable {f f' : Frame} {k : Patch}

/-- What is asked of a statement, besides those inside it. -/
structure Fits (I : Invariant) (f f' : Frame) (k : Patch) (s : Stmt) : Prop where
  exprs : ∀ e ∈ s.exprs, I.Pure (f.eval e) (f'.eval (k.expr e))
  constants : ∀ i ∈ s.declared, I.constants i.name
  vars : ∀ t ∈ s.targets, I.vars t.name
  unknown : ∀ sp op t e, s = .assign sp op t e → f.unknown (t.span.through e.span) =
    f'.unknown ((k.target t).span.through (k.expr e).span)
  noLoad : s.isLoad = false

/-- Keys are the same where the indices are. -/
theorem Pure.keys {is : List (Option Expr)}
    (h : ∀ e ∈ is.filterMap id, I.Pure (f.eval e) (f'.eval (k.expr e))) :
    I.Pure (f.keys is) (f'.keys (is.map (·.map k.expr))) := by
  induction is with
  | nil => exact .pure rfl
  | cons i is ih =>
    cases i with
    | none => exact (ih fun e he ↦ h e he).bind_eq fun _ ↦ .pure rfl
    | some e =>
      refine (h e List.mem_cons_self).bind_eq fun v ↦ ?_
      split
      · exact .pure rfl
      · exact (ih fun e he ↦ h e (List.mem_cons_of_mem _ he)).bind_eq fun _ ↦ .pure rfl

/-- The keys of a target to be unset are the same where the indices are. -/
theorem Pure.closedKeys {is : List (Option Expr)}
    (h : ∀ e ∈ is.filterMap id, I.Pure (f.eval e) (f'.eval (k.expr e))) :
    I.Pure (f.closedKeys is) (f'.closedKeys (is.map (·.map k.expr))) := by
  induction is with
  | nil => exact .pure rfl
  | cons i is ih =>
    cases i with
    | none => exact .pure rfl
    | some e =>
      refine (h e List.mem_cons_self).bind_eq fun v ↦ ?_
      split
      · exact .pure rfl
      · exact (ih fun e he ↦ h e (List.mem_cons_of_mem _ he)).bind_eq fun _ ↦ .pure rfl

/-- Assignments to the same target are the same if indices and values are. -/
theorem Pure.assign {op : AssignOp} {t : Target} {e : Expr} (var : I.vars t.name)
    (indices : ∀ e ∈ t.exprs, I.Pure (f.eval e) (f'.eval (k.expr e)))
    (value : I.Pure (f.eval e) (f'.eval (k.expr e)))
    (unknown : f.unknown (t.span.through e.span) =
      f'.unknown ((k.target t).span.through (k.expr e).span)) :
    I.Pure (f.assign op t e) (f'.assign op (k.target t) (k.expr e)) := by
  refine (Pure.keys indices).bind_eq fun path ↦ ?_
  cases path with
  | none => exact .pure rfl
  | some path =>
    refine Pure.get.bind_eq fun s ↦ ?_
    dsimp only [Patch.target]
    split
    · exact .pure rfl
    · refine value.bind_eq fun right ↦ ?_
      rw [show f.unknown (t.span.through e.span) = f'.unknown ((k.move t.span).through (k.expr e).span)
        from unknown]
      exact Pure.modify fun s ↦ I.setVariable _ _ s var

/-- Unsetting the same target is the same if the indices are. -/
theorem Pure.unset {t : Target} (var : I.vars t.name)
    (indices : ∀ e ∈ t.exprs, I.Pure (f.eval e) (f'.eval (k.expr e))) :
    I.Pure (f.unset t) (f'.unset (k.target t)) := by
  unfold Frame.unset
  rw [Patch.target, List.isEmpty_map]
  split
  · exact Pure.modify fun s ↦ I.unsetVariable _ s var
  · refine (Pure.closedKeys indices).bind_eq fun path ↦ ?_
    cases path with
    | none => exact .pure rfl
    | some path =>
      refine Pure.get.bind_eq fun s ↦ ?_
      dsimp only
      split
      · exact .pure rfl
      · exact Pure.modify fun s ↦ I.setVariable _ _ s var

/-- Unsetting the same targets is the same, one after the other. -/
theorem Pure.unsetAll {ts : List Target} (vars : ∀ t ∈ ts, I.vars t.name)
    (indices : ∀ e ∈ ts.flatMap Target.exprs, I.Pure (f.eval e) (f'.eval (k.expr e))) :
    I.Pure (ts.forM f.unset) ((ts.map k.target).forM f'.unset) := by
  induction ts with
  | nil => exact .pure rfl
  | cons t ts ih =>
    refine (Pure.unset (vars t List.mem_cons_self) fun e he ↦
      indices e (List.mem_append_left _ he)).bind_eq fun _ ↦ ?_
    exact ih (fun t ht ↦ vars t (List.mem_cons_of_mem _ ht)) fun e he ↦
      indices e (List.mem_append_right _ he)

/-- Constants of the same names are declared alike if their values are the same. -/
theorem Pure.declare {is : List ConstItem} (constants : ∀ i ∈ is, I.constants i.name)
    (values : ∀ i ∈ is, I.Pure (f.eval i.value) (f'.eval (k.expr i.value))) :
    I.Pure (f.declare is) (f'.declare (is.map k.constItem)) := by
  induction is with
  | nil => exact .pure rfl
  | cons i is ih =>
    refine (values i List.mem_cons_self).bind_eq fun v ↦ ?_
    refine (Likeness.Related.define (L := I.likeness) (constants i List.mem_cons_self)
      (rfl : v = v)).bind_eq fun _ ↦ ?_
    exact ih (fun i hi ↦ constants i (List.mem_cons_of_mem _ hi)) fun i hi ↦
      values i (List.mem_cons_of_mem _ hi)

variable {runner runner' : Option Runner}

mutual

/-- A statement and the patched one do the same. -/
theorem exec_same {s : Stmt} (fits : ∀ n ∈ s.nodes, Fits I f f' k n) :
    I.Same (f.exec runner s) (f'.exec runner' (k.stmt s)) := by
  obtain ⟨exprs, constants, vars, unknown, noLoad⟩ := fits s s.mem_nodes
  match s with
  | .expr sp e =>
    exact (Same.lift (exprs e List.mem_cons_self)).bind fun _ ↦ .pure _
  | .assign sp op t e =>
    refine (Same.lift (Pure.assign (vars t List.mem_cons_self) ?_ ?_ (unknown sp op t e rfl))).bind
      fun _ ↦ .pure _
    · exact fun e he ↦ exprs e (List.mem_append_left _ he)
    · exact exprs e (List.mem_append_right _ List.mem_cons_self)
  | .const sp is =>
    refine (Same.lift (Pure.declare constants fun i hi ↦ ?_)).bind fun _ ↦ .pure _
    exact exprs i.value (List.mem_map_of_mem hi)
  | .load sp kind p => cases noLoad
  | .conditional sp bs none =>
    have branches : ∀ n ∈ Stmt.nodesOfBranches bs, Fits I f f' k n := fun n hn ↦
      fits n (List.mem_cons_of_mem _ hn)
    exact choose_same (.pure _) exprs branches
  | .conditional sp bs (some body) =>
    have otherwise : I.Same (f.execAll runner body) (f'.execAll runner' (k.stmts body)) :=
      execAll_same fun n hn ↦ fits n (List.mem_cons_of_mem _ (List.mem_append_right _ hn))
    exact choose_same otherwise (fun e he ↦ exprs e he) fun n hn ↦
      fits n (List.mem_cons_of_mem _ (List.mem_append_left _ hn))
  | .block sp body =>
    have inner : ∀ n ∈ Stmt.nodesOfList body, Fits I f f' k n := fun n hn ↦
      fits n (List.mem_cons_of_mem _ hn)
    exact execAll_same inner
  | .unset sp ts => exact (Same.lift (Pure.unsetAll vars exprs)).bind fun _ ↦ .pure _
  | .ret _ => exact .pure _
  | .exit _ => exact .pure _
  | .global .. | .inlineHtml _ | .opaqueStmt _ => exact .pure _

/-- Statements that fit do the same, one after the other. -/
theorem execAll_same {ss : List Stmt} (fits : ∀ n ∈ Stmt.nodesOfList ss, Fits I f f' k n) :
    I.Same (f.execAll runner ss) (f'.execAll runner' (k.stmts ss)) := by
  match ss with
  | [] => exact .pure _
  | s :: ss =>
    have first : I.Same (f.exec runner s) (f'.exec runner' (k.stmt s)) :=
      exec_same fun n hn ↦ fits n (List.mem_append_left _ hn)
    refine first.bind fun flow ↦ ?_
    cases flow with
    | goOn => exact execAll_same fun n hn ↦ fits n (List.mem_append_right _ hn)
    | leave | stop => exact .pure _

/-- Branches that fit do the same: the conditions are the same, so the same one is chosen. -/
theorem choose_same {bs : List Branch} {otherwise otherwise' : Run Flow}
    (other : I.Same otherwise otherwise')
    (conditions : ∀ e ∈ bs.map Branch.condition, I.Pure (f.eval e) (f'.eval (k.expr e)))
    (fits : ∀ n ∈ Stmt.nodesOfBranches bs, Fits I f f' k n) :
    I.Same (f.choose runner otherwise bs) (f'.choose runner' otherwise' (k.branches bs)) := by
  match bs with
  | [] => exact other
  | .mk c body :: bs =>
    refine (Same.lift (conditions c List.mem_cons_self)).bind fun v ↦ ?_
    split
    · exact .pure _
    split
    · exact execAll_same fun n hn ↦ fits n (List.mem_append_left _ hn)
    · exact choose_same other (fun e he ↦ conditions e (List.mem_cons_of_mem _ he)) fun n hn ↦
        fits n (List.mem_append_right _ hn)

end

end Invariant

end ConfigScript
