import ConfigScript.Proofs.Running.Edited

/-!
# Runs that reach a definition

Two scripts that differ in the value of one definition run side by side. As long as they have not
reached it they do the same, for what stands in front of the value is the same in both. If the first run
gets to define the entry, then so does the second one, with the new value (`Edited.reaches_execAll`).

Behind the definition the runs may differ, as the old value may have had effects; but nothing else
defines the entry.
-/

namespace ConfigScript

open Script

/-! ### Statements of the patched script -/

namespace Script.Patch

variable (k : Patch)

mutual

/-- The statements inside a patched statement are the patched ones. -/
theorem nodes_stmt (s : Stmt) : (k.stmt s).nodes = s.nodes.map k.stmt := by
  match s with
  | .conditional sp bs none =>
    rw [stmt, Stmt.nodes, Stmt.nodes, List.map_cons, nodesOfBranches_branches bs, stmt]
  | .conditional sp bs (some body) =>
    rw [stmt, Stmt.nodes, Stmt.nodes, List.map_cons, List.map_append, nodesOfBranches_branches bs,
      nodesOfList_stmts body, stmt]
  | .block sp body => rw [stmt, Stmt.nodes, Stmt.nodes, List.map_cons, nodesOfList_stmts body, stmt]
  | .expr .. | .assign .. | .const .. | .load .. | .unset .. | .global .. | .ret _ | .exit _
  | .inlineHtml _ | .opaqueStmt _ => rfl

/-- The statements of patched ones, with those inside them, are the patched statements. -/
theorem nodesOfList_stmts (ss : List Stmt) :
    Stmt.nodesOfList (k.stmts ss) = (Stmt.nodesOfList ss).map k.stmt := by
  match ss with
  | [] => rfl
  | s :: ss =>
    rw [stmts, Stmt.nodesOfList, Stmt.nodesOfList, List.map_append, nodes_stmt s, nodesOfList_stmts ss]

/-- The statements in patched branches are the patched statements. -/
theorem nodesOfBranches_branches (bs : List Branch) :
    Stmt.nodesOfBranches (k.branches bs) = (Stmt.nodesOfBranches bs).map k.stmt := by
  match bs with
  | [] => rfl
  | .mk c body :: bs =>
    rw [branches, Stmt.nodesOfBranches, Stmt.nodesOfBranches, List.map_append, nodesOfList_stmts body,
      nodesOfBranches_branches bs]

end

/-- A patched branch is one of the branches, patched. -/
theorem exists_of_mem_branches {bs : List Branch} {c' : Expr} {body' : List Stmt}
    (h : .mk c' body' ∈ k.branches bs) :
    ∃ c body, .mk c body ∈ bs ∧ k.expr c = c' ∧ k.stmts body = body' := by
  induction bs with
  | nil => cases h
  | cons b bs ih =>
    obtain ⟨c, body⟩ := b
    rcases List.mem_cons.1 h with is | h
    · injection is with same same'
      exact ⟨c, body, List.mem_cons_self, same.symm, same'.symm⟩
    · obtain ⟨c, body, mem, found⟩ := ih h
      exact ⟨c, body, List.mem_cons_of_mem _ mem, found⟩

theorem targets_stmt (s : Stmt) : (k.stmt s).targets = s.targets.map k.target := by
  match s with
  | .conditional _ _ none | .conditional _ _ (some _) | .block .. | .expr .. | .assign .. | .const ..
  | .load .. | .unset .. | .global .. | .ret _ | .exit _ | .inlineHtml _ | .opaqueStmt _ => rfl

theorem isLoad_stmt (s : Stmt) : (k.stmt s).isLoad = s.isLoad := by
  match s with
  | .conditional _ _ none | .conditional _ _ (some _) | .block .. | .expr .. | .assign .. | .const ..
  | .load .. | .unset .. | .global .. | .ret _ | .exit _ | .inlineHtml _ | .opaqueStmt _ => rfl

end Script.Patch

/-- A part of a script: some of its outermost expressions `rs` and the statements that hold them. -/
structure Portion (source : List Char) (rs qs : List Root) (ns : List Stmt) : Prop where
  sub : ∀ q ∈ qs, q ∈ rs
  ordered : qs.Pairwise Root.Before
  noLoad : ∀ n ∈ ns, n.isLoad = false
  leads : ∀ n ∈ ns, n.Leads (IsBoundary source)

/-- A part of a portion is a portion. -/
theorem Portion.mono {source : List Char} {rs qs qs' : List Root} {ns ns' : List Stmt}
    (h : Portion source rs qs ns) (roots : qs'.Sublist qs) (nodes : ∀ n ∈ ns', n ∈ ns) :
    Portion source rs qs' ns' where
  sub q hq := h.sub q (roots.subset hq)
  ordered := h.ordered.sublist roots
  noLoad n hn := h.noLoad n (nodes n hn)
  leads n hn := h.leads n (nodes n hn)

namespace Edited

open Invariant

variable {kind : EntryKind} {name : String} {x : Value} {f f' : Frame} {k : Patch} {hole : Span}
  {rs qs : List Root} {r : Root} {runner runner' : Option Runner}
  (E : Edited kind name x f f' k hole rs)

include E

/-! ### Statements without the definition -/

section Without

variable {n : Stmt} {ns : List Stmt} (own : ∀ e ∈ n.exprs, e ∈ rs.map Root.expr)
  (noLoad : n.isLoad = false) (none : n.definitions kind name = 0)

include own noLoad none

/-- A statement without a definition of the entry does not give it to a scope that lacks it. -/
theorem fits_still : Fits (lacks kind name) f f .still n where
  exprs e he := by
    obtain ⟨r, mem, rfl⟩ := List.mem_map.1 (own e he)
    exact E.keeps_value mem (fun _ hn ↦ hn) (Stmt.not_defines_expr none he)
  constants i hi const := by
    subst const
    exact Stmt.not_defines_const none i hi
  vars t ht var := by
    subst var
    exact Stmt.not_defines_var none t ht
  unknown sp op t e _ := by
    show _ = f.unknown (t.span.through (Patch.still.expr e).span)
    rw [Patch.span_of_ne (Option.some_ne_none _).symm]
    rfl
  noLoad := noLoad

omit own in
/-- Nor does the patched one change it. -/
theorem fits_patched : Fits (has kind name x) f' f' .still (k.stmt n) where
  exprs e he := pure_still (mayDefine_of_all (fun _ ↦ trivial) e) f'
  constants _ _ := trivial
  vars t ht var := by
    subst var
    rw [Patch.targets_stmt] at ht
    obtain ⟨t', mem, rfl⟩ := List.mem_map.1 ht
    exact Stmt.not_defines_var none t' mem
  unknown sp op t e _ := by
    show _ = f'.unknown (t.span.through (Patch.still.expr e).span)
    rw [Patch.span_of_ne (Option.some_ne_none _).symm]
    rfl
  noLoad := by rw [Patch.isLoad_stmt, noLoad]

/-- In front of the value, the statement and the patched one do the same. -/
theorem fits_before (leads : n.Leads (IsBoundary f.source))
    (before : ∀ e ∈ n.exprs, ∀ m ∈ e.nodes, m.span.stop ≤ hole.start) :
    Fits (lacks kind name) f f' k n where
  exprs e he := by
    obtain ⟨r, mem, rfl⟩ := List.mem_map.1 (own e he)
    exact E.pure_of_before mem (fun _ hn ↦ hn) (Stmt.not_defines_expr none he) (before _ he)
  constants i hi const := by
    subst const
    exact Stmt.not_defines_const none i hi
  vars t ht var := by
    subst var
    exact Stmt.not_defines_var none t ht
  unknown sp op t e is := by
    obtain ⟨long, le, begins⟩ := leads sp op t e is
    have mem : e ∈ n.exprs := by
      rw [is]
      exact List.mem_append_right _ List.mem_cons_self
    obtain ⟨r, mem', rfl⟩ := List.mem_map.1 (own e mem)
    have stop := before _ mem r.expr r.expr.mem_nodes
    have lt := E.long r mem' r.expr r.expr.mem_nodes
    rw [Patch.span_of_ne (E.ne_hole stop), Patch.target, ← k.move_through]
    refine E.unknown _ begins ?_ ?_
    · show t.span.start < max r.expr.span.stop t.span.stop
      omega
    · show max r.expr.span.stop t.span.stop ≤ hole.start
      omega
  noLoad := noLoad

end Without

/-! ### Parts of the script without the definition -/

variable {ss : List Stmt} {bs : List Branch} {ns : List Stmt}

section Portions

variable (P : Portion f.source rs qs ns) (own : ∀ n ∈ ns, ∀ e ∈ n.exprs, e ∈ qs.map Root.expr)
  (none : ∀ n ∈ ns, n.definitions kind name = 0)

include P none

omit E none in
theorem own_of_portion (own : ∀ n ∈ ns, ∀ e ∈ n.exprs, e ∈ qs.map Root.expr) {n : Stmt}
    (hn : n ∈ ns) : ∀ e ∈ n.exprs, e ∈ rs.map Root.expr := fun e he ↦ by
  obtain ⟨q, mem, rfl⟩ := List.mem_map.1 (own n hn e he)
  exact List.mem_map_of_mem (P.sub q mem)

include own in
theorem all_fit_still : ∀ n ∈ ns, Fits (lacks kind name) f f .still n := fun n hn ↦
  E.fits_still (own_of_portion P own hn) (P.noLoad n hn) (none n hn)

theorem all_fit_patched : ∀ n ∈ ns.map k.stmt, Fits (has kind name x) f' f' .still n := by
  intro n hn
  obtain ⟨m, mem, rfl⟩ := List.mem_map.1 hn
  exact E.fits_patched (P.noLoad m mem) (none m mem)

include own in
/-- Statements that end in front of the value fit, so they do the same in both scripts. -/
theorem all_fit_before (before : ∀ q ∈ qs, ∀ m ∈ q.expr.nodes, m.span.stop ≤ hole.start) :
    ∀ n ∈ ns, Fits (lacks kind name) f f' k n := fun n hn ↦
  E.fits_before (own_of_portion P own hn) (P.noLoad n hn) (none n hn) (P.leads n hn)
    fun e he m hm ↦ by
      obtain ⟨q, mem, rfl⟩ := List.mem_map.1 (own n hn e he)
      exact before q mem m hm

end Portions

/-- Statements of the first script without a definition of the entry leave it missing. -/
theorem keeps_old (P : Portion f.source rs (Stmt.rootsOfList ss) (Stmt.nodesOfList ss))
    (none : definitions kind name ss = 0) : (lacks kind name).Keeps (f.execAll runner ss) := by
  have same : (lacks kind name).Same (f.execAll runner ss)
      (f.execAll runner (Patch.still.stmts ss)) :=
    execAll_same (E.all_fit_still P (fun _ hn _ ↦ Stmt.mem_rootsOfList hn)
      fun _ ↦ definitions_eq_zero none)
  exact same.keeps

/-- Statements of the second script without a definition of the entry leave it with the new value. -/
theorem keeps_new (P : Portion f.source rs (Stmt.rootsOfList ss) (Stmt.nodesOfList ss))
    (none : definitions kind name ss = 0) :
    (has kind name x).Keeps (f'.execAll runner' (k.stmts ss)) := by
  have fits := E.all_fit_patched P fun _ ↦ definitions_eq_zero none
  rw [← Patch.nodesOfList_stmts] at fits
  have same : (has kind name x).Same (f'.execAll runner' (k.stmts ss))
      (f'.execAll runner' (Patch.still.stmts (k.stmts ss))) := execAll_same fits
  exact same.keeps

/-! ### The statement around the value -/

omit E in
/-- Whatever stands in front of an expression around the value stands in front of the value. -/
theorem before_of_ordered (qs : List Root) {qs' : List Root} (ordered : (qs ++ qs').Pairwise Root.Before)
    (inside : ∃ v ∈ Root.nodes qs', v.span = hole) :
    ∀ q ∈ qs, ∀ m ∈ q.expr.nodes, m.span.stop ≤ hole.start := by
  obtain ⟨v, mem, rfl⟩ := inside
  obtain ⟨r, mem, inside⟩ := List.mem_flatMap.1 mem
  exact fun q hq m hm ↦ (List.pairwise_append.1 ordered).2.2 q hq r mem m hm v inside

/-- An assignment whose value defines a constant. -/
theorem reaches_assign (const : kind = .const) {op : AssignOp} {t : Target} {e : Expr}
    (sub : ∀ q ∈ t.roots, q ∈ rs) (none : ∀ e ∈ t.exprs, e.definitions kind name = 0)
    (before : ∀ q ∈ t.roots, ∀ m ∈ q.expr.nodes, m.span.stop ≤ hole.start)
    (value : Reaches (lacks kind name) (has kind name x) (f.value e) (f'.value (k.expr e))) :
    Reaches (lacks kind name) (has kind name x) (ExceptT.lift (f.assign op t e))
      (ExceptT.lift (f'.assign op (k.target t) (k.expr e))) := by
  have indices : ∀ e ∈ t.exprs, (lacks kind name).Pure (f.eval e) (f'.eval (k.expr e)) := by
    intro e he
    have absent := none e he
    rw [← Target.exprs_eq_roots] at he
    obtain ⟨q, mem, rfl⟩ := List.mem_map.1 he
    exact E.pure_of_before (sub q mem) (fun _ hn ↦ hn) absent (before q mem)
  unfold Frame.assign
  rw [lift_bind, lift_bind]
  refine (Same.lift (Pure.keys indices)).reaches fun path ↦ ?_
  cases path with
  | none => exact Keeps.reaches (.pure ())
  | some path =>
    rw [lift_bind, lift_bind]
    refine (Same.lift Pure.get).reaches fun s ↦ ?_
    dsimp only [Patch.target]
    split
    · exact Keeps.reaches (.pure ())
    · subst const
      rw [lift_bind, lift_bind]
      exact value.bind (fun v s h ↦ h) fun v s h ↦ h

/-- A plain assignment to the variable. -/
theorem reaches_assign_var (var : kind = .var) {t : Target} {e : Expr} (named : t.name = name)
    (plain : t.indices = []) (value : e.span = hole) :
    Reaches (lacks kind name) (has kind name x) (ExceptT.lift (f.assign .assign t e))
      (ExceptT.lift (f'.assign .assign (k.target t) (k.expr e))) := fun s _ ↦ .inl <| by
  subst var named
  have new : f'.eval (k.expr e) = pure x := by
    rw [Patch.expr_of_hole (by rw [E.place, value])]
    exact E.new f'
  have run : f'.assign .assign (k.target t) (k.expr e) = modify (·.setVariable t.name x) := by
    unfold Frame.assign
    rw [new, Patch.target, plain]
    rfl
  rw [run, Run.outcome_lift]
  exact Scope.var?_setVariable_self s t.name x

/-- A declaration of the constant. -/
theorem reaches_declare (const : kind = .const) {is : List ConstItem}
    (sub : ∀ i ∈ is, Root.assigned i.value ∈ rs)
    (ordered : (is.map fun i ↦ Root.assigned i.value).Pairwise Root.Before)
    (none : ∀ i ∈ is, i.value.definitions kind name = 0) {i : ConstItem} (mem : i ∈ is)
    (once : is.countP (·.name == name) ≤ 1) (named : i.name = name) (value : i.value.span = hole) :
    Reaches (lacks kind name) (has kind name x) (ExceptT.lift (f.declare is))
      (ExceptT.lift (f'.declare (is.map k.constItem))) := by
  subst const
  induction is with
  | nil => cases mem
  | cons j is ih =>
    rw [List.map_cons, Frame.declare, Frame.declare]
    -- The first constant is the one that is looked for; or it is declared alike in both, and the others
    -- are gone through.
    by_cases here : j.name = name
    · obtain rfl : j = i := eq_of_countP once List.mem_cons_self mem (by simp [here]) (by simp [named])
      intro s absent
      have rest : (has .const name x).Keeps (ExceptT.lift (f'.declare (is.map k.constItem))) :=
        (Same.lift (Pure.declare (fun _ _ ↦ trivial) fun i _ ↦
          pure_still (mayDefine_of_all (fun _ ↦ trivial) i.value) f')).keeps
      have new : f'.eval (k.constItem j).value = pure x := by
        rw [Patch.constItem, Patch.expr_of_hole (by rw [E.place, value])]
        exact E.new f'
      refine .inl ?_
      rw [new, pure_bind]
      refine rest (s.define j.name x).2 ?_
      rw [here]
      exact Scope.constant?_define_self absent x
    · have mem' : i ∈ is := (List.mem_cons.1 mem).resolve_left fun same ↦ here (same ▸ named)
      have inside : ∃ v ∈ Root.nodes (is.map fun i ↦ Root.assigned i.value), v.span = hole :=
        ⟨i.value, List.mem_flatMap.2 ⟨_, List.mem_map_of_mem mem', i.value.mem_nodes⟩, value⟩
      have before := before_of_ordered [.assigned j.value] ordered inside
      have first := E.pure_of_before (sub j List.mem_cons_self) (fun _ hn ↦ hn) (none j List.mem_cons_self)
        (before _ List.mem_cons_self)
      rw [lift_bind, lift_bind]
      refine (Same.lift first).reaches fun v ↦ ?_
      rw [lift_bind, lift_bind]
      refine (Same.lift (Likeness.Related.define (L := (lacks .const name).likeness) (fun _ ↦ here)
        (rfl : v = v))).reaches fun _ ↦ ?_
      rw [List.countP_cons] at once
      exact ih (fun i hi ↦ sub i (List.mem_cons_of_mem _ hi)) (List.pairwise_cons.1 ordered).2 mem'
        (by omega) fun i hi ↦ none i (List.mem_cons_of_mem _ hi)

/-! ### Branches without the definition -/

omit E in
/-- A branch in a portion has its condition in it, and its body is a portion. -/
theorem portion_of_branch {c : Expr} {body : List Stmt} (mem : .mk c body ∈ bs)
    (P : Portion f.source rs (Stmt.rootsOfBranches bs) (Stmt.nodesOfBranches bs)) :
    Root.inner c ∈ rs ∧ Portion f.source rs (Stmt.rootsOfList body) (Stmt.nodesOfList body) := by
  induction bs with
  | nil => cases mem
  | cons b bs ih =>
    obtain ⟨c', body'⟩ := b
    rcases List.mem_cons.1 mem with is | mem
    · injection is with same same'
      subst same same'
      refine ⟨P.sub _ List.mem_cons_self, P.mono ?_ fun n hn ↦ List.mem_append_left _ hn⟩
      exact (List.sublist_append_left _ _).trans (List.sublist_cons_self _ _)
    · refine ih mem (P.mono ?_ fun n hn ↦ List.mem_append_right _ hn)
      exact (List.sublist_append_right _ _).trans (List.sublist_cons_self _ _)

omit E in
/-- Branches without a definition of the entry have none in a condition or body. -/
theorem definitions_of_branch (none : definitionsOfBranches kind name bs = 0) {c : Expr}
    {body : List Stmt} (mem : .mk c body ∈ bs) :
    c.definitions kind name = 0 ∧ definitions kind name body = 0 := by
  induction bs with
  | nil => cases mem
  | cons b bs ih =>
    obtain ⟨c', body'⟩ := b
    rw [definitionsOfBranches_cons] at none
    rcases List.mem_cons.1 mem with is | mem
    · injection is with same same'
      subst same same'
      exact ⟨by omega, by omega⟩
    · exact ih (by omega) mem

/-- Branches of the first script without a definition of the entry leave it missing. -/
theorem keeps_choose_old (P : Portion f.source rs (Stmt.rootsOfBranches bs) (Stmt.nodesOfBranches bs))
    (none : definitionsOfBranches kind name bs = 0) {otherwise : Run Flow}
    (other : (lacks kind name).Keeps otherwise) :
    (lacks kind name).Keeps (f.choose runner otherwise bs) :=
  keeps_choose other fun c body mem ↦ by
    obtain ⟨inside, P'⟩ := portion_of_branch mem P
    obtain ⟨first, second⟩ := definitions_of_branch none mem
    exact ⟨Same.keeps_lift (E.keeps_value inside (fun _ hn ↦ hn) first), E.keeps_old P' second⟩

/-- Branches of the second script without a definition of the entry leave it with the new value. -/
theorem keeps_choose_new (P : Portion f.source rs (Stmt.rootsOfBranches bs) (Stmt.nodesOfBranches bs))
    (none : definitionsOfBranches kind name bs = 0) {otherwise : Run Flow}
    (other : (has kind name x).Keeps otherwise) :
    (has kind name x).Keeps (f'.choose runner' otherwise (k.branches bs)) :=
  keeps_choose other fun c' body' mem ↦ by
    obtain ⟨c, body, here, rfl, rfl⟩ := k.exists_of_mem_branches mem
    obtain ⟨-, P'⟩ := portion_of_branch here P
    obtain ⟨-, second⟩ := definitions_of_branch none here
    exact ⟨Same.keeps_lift (pure_still (mayDefine_of_all (fun _ ↦ trivial) _) f'), E.keeps_new P' second⟩

/-- Branches in front of the value lead to what is run otherwise in both scripts. -/
theorem reaches_otherwise (P : Portion f.source rs (Stmt.rootsOfBranches bs) (Stmt.nodesOfBranches bs))
    (none : definitionsOfBranches kind name bs = 0)
    (before : ∀ q ∈ Stmt.rootsOfBranches bs, ∀ m ∈ q.expr.nodes, m.span.stop ≤ hole.start)
    {otherwise otherwise' : Run Flow}
    (other : Reaches (lacks kind name) (has kind name x) otherwise otherwise') :
    Reaches (lacks kind name) (has kind name x) (f.choose runner otherwise bs)
      (f'.choose runner' otherwise' (k.branches bs)) := by
  induction bs with
  | nil => exact other
  | cons b bs ih =>
    obtain ⟨c, body⟩ := b
    obtain ⟨inside, P'⟩ := portion_of_branch List.mem_cons_self P
    rw [definitionsOfBranches_cons] at none
    have condition := E.pure_of_before inside (fun _ hn ↦ hn) (show c.definitions kind name = 0 by omega)
      (before _ List.mem_cons_self)
    refine (Same.lift condition).reaches fun v ↦ ?_
    split
    · exact Keeps.reaches (.pure _)
    split
    · exact (E.keeps_old P' (by omega)).reaches
    · refine ih (P.mono ?_ fun n hn ↦ List.mem_append_right _ hn) (by omega) fun q hq ↦
        before q (List.mem_cons_of_mem _ (List.mem_append_right _ hq))
      exact (List.sublist_append_right _ _).trans (List.sublist_cons_self _ _)

/-! ### All statements -/

variable {o : Occurrence}

omit E in
theorem inside_of_defining {v : Expr} (same : o.value = v.span) (defining : Defining qs v)
    (value : o.value = hole) : ∃ v ∈ Root.nodes qs, v.span = hole :=
  ⟨v, defining.mem, same.symm.trans value⟩

omit E in
theorem definitions_single {s : Stmt} (single : s.nodes = [s]) :
    definitions kind name [s] = s.definitions kind name := by
  rw [definitions, Stmt.nodesOfList, single]
  simp [Stmt.nodesOfList]

mutual

/-- If a statement with the definition defines the entry, then so does the patched one. -/
theorem reaches_exec {s : Stmt} (P : Portion f.source rs s.roots s.nodes)
    (once : definitions kind name [s] ≤ 1) (found : o ∈ Occurrence.inStmt kind name s)
    (value : o.value = hole) :
    Reaches (lacks kind name) (has kind name x) (f.exec runner s) (f'.exec runner' (k.stmt s)) := by
  match s with
  | .conditional sp bs none =>
    rw [definitions_conditional] at once
    have branches : Portion f.source rs (Stmt.rootsOfBranches bs) (Stmt.nodesOfBranches bs) :=
      P.mono (.refl _) fun n hn ↦ List.mem_cons_of_mem _ hn
    exact reaches_choose branches (by omega) found value (.pure _) (.pure _)
  | .conditional sp bs (some body) =>
    have inner : Portion f.source rs (Stmt.rootsOfList body) (Stmt.nodesOfList body) :=
      P.mono (List.sublist_append_right _ _) fun n hn ↦
        List.mem_cons_of_mem _ (List.mem_append_right _ hn)
    have branches : Portion f.source rs (Stmt.rootsOfBranches bs) (Stmt.nodesOfBranches bs) :=
      P.mono (List.sublist_append_left _ _) fun n hn ↦
        List.mem_cons_of_mem _ (List.mem_append_left _ hn)
    rw [definitions_conditional, Option.getD_some] at once
    -- The one definition is in a branch, and the last alternative has none; or it is the other way
    -- round.
    rcases List.mem_append.1 found with found | found
    · have := Occurrence.definitions_pos_of_inBranches found
      exact reaches_choose branches (by omega) found value
        (E.keeps_old inner (by omega)) (E.keeps_new inner (by omega))
    · have := Occurrence.definitions_pos_of_inStmts found
      obtain ⟨v, same, defining⟩ := Occurrence.defining_of_inStmts found
      exact E.reaches_otherwise branches (by omega)
        (before_of_ordered _ P.ordered (inside_of_defining same defining value))
        (reaches_execAll inner (by omega) found value)
  | .block sp body =>
    rw [definitions_block] at once
    have inner : Portion f.source rs (Stmt.rootsOfList body) (Stmt.nodesOfList body) :=
      P.mono (.refl _) fun n hn ↦ List.mem_cons_of_mem _ hn
    exact reaches_execAll inner once found value
  | .expr sp e =>
    rw [Occurrence.inStmt] at found
    split at found
    · rename_i const
      rw [definitions_single rfl] at once
      have le : e.definitions kind name ≤ 1 := by
        have : (Stmt.expr sp e).definitions kind name = ([e.definitions kind name].sum + _) := rfl
        simp only [List.sum_cons, List.sum_nil] at this
        omega
      exact (E.reaches_value const (P.sub (.inner e) List.mem_cons_self) le found value).bind
        (fun _ ↦ .pure _) fun _ ↦ .pure _
    · cases found
  | .const sp is =>
    rw [Occurrence.inStmt] at found
    split at found
    · rename_i const
      subst const
      obtain ⟨i, mem, rfl⟩ := List.mem_map.1 found
      obtain ⟨mem, named⟩ := List.mem_filter.1 mem
      rw [definitions_single rfl] at once
      have counted : (is.map fun i ↦ i.value.definitions .const name).sum +
          is.countP (·.name == name) ≤ 1 := by
        simpa [Stmt.definitions, Stmt.exprs, Stmt.declared, Function.comp_def] using once
      -- The declared name is the one definition, so the declared values have none.
      have pos : 0 < is.countP (·.name == name) := List.countP_pos_iff.2 ⟨i, mem, named⟩
      have values : (is.map fun i ↦ i.value.definitions .const name).sum = 0 := by omega
      refine Reaches.bind (E.reaches_declare rfl (fun j hj ↦ P.sub _ (List.mem_map_of_mem hj)) P.ordered
        (fun j hj ↦ sum_eq_zero values (List.mem_map_of_mem hj)) mem (by omega) (by simpa using named)
        value) (fun _ ↦ .pure _) fun _ ↦ .pure _
    · cases found
  | .assign sp op t e =>
    obtain ⟨r, last, rfl⟩ : ∃ r : Root, (Stmt.assign sp op t e).roots = t.roots ++ [r] ∧ r.expr = e :=
      ⟨_, rfl, by split <;> rfl⟩
    cases kind with
    | const =>
      replace found : o ∈ Occurrence.inExpr name none r.expr := found
      rw [definitions_single rfl] at once
      have counted : (t.exprs.map (Expr.definitions .const name)).sum +
          r.expr.definitions .const name ≤ 1 := by
        simpa [Stmt.definitions, Stmt.exprs, Stmt.declared] using once
      have pos := Occurrence.definitions_pos_of_inExpr found
      -- The value has the one definition, so the indices in front of it have none.
      have indices : (t.exprs.map (Expr.definitions .const name)).sum = 0 := by omega
      obtain ⟨v, same, defining⟩ := Occurrence.defining_of_inExpr found
      refine Reaches.bind (E.reaches_assign rfl (fun q hq ↦ P.sub q ?_)
        (fun i hi ↦ sum_eq_zero indices (List.mem_map_of_mem hi))
        (before_of_ordered _ (last ▸ P.ordered) (inside_of_defining same defining value))
        (E.reaches_value rfl (P.sub r ?_) (by omega) found value))
        (fun _ ↦ .pure _) fun _ ↦ .pure _
      · rw [last]
        exact List.mem_append_left _ hq
      · rw [last]
        exact List.mem_append_right _ (List.mem_singleton_self r)
    | var =>
      replace found : o ∈ Occurrence.inAssignment name sp op t r.expr := found
      unfold Occurrence.inAssignment at found
      split at found
      -- Only an assignment to the whole variable is found.
      · rename_i plain
        obtain rfl := List.mem_singleton.1 found
        simp only [Bool.and_eq_true, beq_iff_eq, List.isEmpty_iff] at plain
        obtain ⟨⟨named, closed⟩, rfl⟩ := plain
        exact (E.reaches_assign_var rfl named closed value).bind (fun _ ↦ .pure _) fun _ ↦ .pure _
      · cases found
    | inclusion => cases found
  | .load .. | .unset .. | .global .. | .ret _ | .exit _ | .inlineHtml _ | .opaqueStmt _ =>
    cases found

/-- Statements with the definition at `hole` reach it. By induction on them: it is in the first one,
which then is in front of all others, or behind it, and the first one does the same in both scripts. -/
theorem reaches_execAll {ss : List Stmt}
    (P : Portion f.source rs (Stmt.rootsOfList ss) (Stmt.nodesOfList ss))
    (once : definitions kind name ss ≤ 1) (found : o ∈ Occurrence.inStmts kind name ss)
    (value : o.value = hole) :
    Reaches (lacks kind name) (has kind name x) (f.execAll runner ss)
      (f'.execAll runner' (k.stmts ss)) := by
  match ss with
  | [] => cases found
  | s :: ss =>
    have here : Portion f.source rs s.roots s.nodes :=
      P.mono (List.sublist_append_left _ _) fun n hn ↦ List.mem_append_left _ hn
    have rest : Portion f.source rs (Stmt.rootsOfList ss) (Stmt.nodesOfList ss) :=
      P.mono (List.sublist_append_right _ _) fun n hn ↦ List.mem_append_right _ hn
    rw [definitions_cons] at once
    rcases List.mem_append.1 found with found | found
    · have := Occurrence.definitions_pos_of_inStmt found
      refine (reaches_exec here (by omega) found value).bind (fun flow ↦ ?_) fun flow ↦ ?_
      · cases flow with
        | goOn => exact E.keeps_old rest (by omega)
        | leave | stop => exact .pure _
      · cases flow with
        | goOn => exact E.keeps_new rest (by omega)
        | leave | stop => exact .pure _
    · have := Occurrence.definitions_pos_of_inStmts found
      obtain ⟨v, same, defining⟩ := Occurrence.defining_of_inStmts found
      have before := before_of_ordered _ P.ordered (inside_of_defining same defining value)
      have none : definitions kind name [s] = 0 := by omega
      have fits := E.all_fit_before here (fun _ hn _ ↦ Stmt.mem_roots hn)
        (fun n hn ↦ definitions_eq_zero none (by simpa [Stmt.nodesOfList] using hn)) before
      refine (exec_same fits).reaches fun flow ↦ ?_
      cases flow with
      | goOn => exact reaches_execAll rest (by omega) found value
      | leave | stop => exact Keeps.reaches (.pure _)

/-- Branches with the definition at `hole` reach it. By induction on them: where it is in the first
condition, the runs may choose different branches behind it, none of which defines the entry; where it is
in the first body or further on, the conditions in front of it are the same, and so is the choice. -/
theorem reaches_choose {bs : List Branch}
    (P : Portion f.source rs (Stmt.rootsOfBranches bs) (Stmt.nodesOfBranches bs))
    (once : definitionsOfBranches kind name bs ≤ 1)
    (found : o ∈ Occurrence.inBranches kind name bs) (value : o.value = hole)
    {otherwise otherwise' : Run Flow} (old : (lacks kind name).Keeps otherwise)
    (new : (has kind name x).Keeps otherwise') :
    Reaches (lacks kind name) (has kind name x) (f.choose runner otherwise bs)
      (f'.choose runner' otherwise' (k.branches bs)) := by
  match bs with
  | [] => cases found
  | .mk c body :: bs =>
    obtain ⟨inside, inner⟩ := portion_of_branch List.mem_cons_self P
    have rest : Portion f.source rs (Stmt.rootsOfBranches bs) (Stmt.nodesOfBranches bs) :=
      P.mono ((List.sublist_append_right _ _).trans (List.sublist_cons_self _ _)) fun n hn ↦
        List.mem_append_right _ hn
    rw [definitionsOfBranches_cons] at once
    rcases List.mem_append.1 found with found | found
    · rcases List.mem_append.1 found with here | found
      -- In the first condition: behind it, no branch breaks what either run has got to, whichever it
      -- chooses.
      · split at here
        · rename_i const
          subst const
          have pos := Occurrence.definitions_pos_of_inExpr here
          refine (E.reaches_value rfl inside (show c.definitions .const name ≤ 1 by omega) here value).bind
            (fun v ↦ ?_) fun v ↦ ?_
          · split
            · exact .pure _
            split
            · exact E.keeps_old inner (by omega)
            · exact E.keeps_choose_old rest (by omega) old
          · split
            · exact .pure _
            split
            · exact E.keeps_new inner (by omega)
            · exact E.keeps_choose_new rest (by omega) new
        · cases here
      -- In the first body: the condition in front of it is the same in both scripts.
      · have pos := Occurrence.definitions_pos_of_inStmts found
        obtain ⟨v, same, defining⟩ := Occurrence.defining_of_inStmts found
        have before := before_of_ordered [.inner c]
          (P.ordered.sublist (List.sublist_append_left _ (Stmt.rootsOfBranches bs)))
          (inside_of_defining same defining value)
        have condition := E.pure_of_before inside (fun _ hn ↦ hn) (show c.definitions kind name = 0 by omega)
          (before _ List.mem_cons_self)
        refine (Same.lift condition).reaches fun v ↦ ?_
        split
        · exact Keeps.reaches (.pure _)
        split
        · exact reaches_execAll inner (by omega) found value
        · exact (E.keeps_choose_old rest (by omega) old).reaches
    -- Further on: the first branch has no definition.
    · have pos := Occurrence.definitions_pos_of_inBranches found
      obtain ⟨v, same, defining⟩ := Occurrence.defining_of_inBranches found
      have before := before_of_ordered (.inner c :: Stmt.rootsOfList body) P.ordered
        (inside_of_defining same defining value)
      have condition := E.pure_of_before inside (fun _ hn ↦ hn) (show c.definitions kind name = 0 by omega)
        (before _ List.mem_cons_self)
      refine (Same.lift condition).reaches fun v ↦ ?_
      split
      · exact Keeps.reaches (.pure _)
      split
      · exact (E.keeps_old inner (by omega)).reaches
      · exact reaches_choose rest (by omega) found value old new

end

end Edited

end ConfigScript
