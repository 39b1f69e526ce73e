import ConfigScript.Proofs.Running.Setting

/-!
# What is read is found

An edit finds definitions in the syntax tree, a run carries them out. If every definition of a script
is one of those that are looked for (`Stmt.isPlain`), then a run keeps away from an entry that is not
found (`Invariant.keeps_execAll`), so each entry that is read from the script is found in it
(`Edit.fileDefines_of_mem_readSource`).
-/

namespace ConfigScript

open Script

/-! ### Scripts whose definitions are found -/

/-- Whether an expression is a call that may define a constant. -/
def Expr.isDefinition : Expr → Bool
  | .call _ f (_ :: _ :: _) => sameWord f.toList "define".toList
  | _ => false

/-- Whether a statement, apart from those inside it, loads no file, assigns whole variables only, and
defines constants by texts and where that is looked for: in an expression statement, a condition or the
value of an assignment. -/
def Stmt.isPlain : Stmt → Bool
  | .expr _ e => e.nodes.all Expr.definesByText
  | .assign _ op t e => op == .assign && t.indices.isEmpty && e.nodes.all Expr.definesByText
  | .const _ is => is.all fun i ↦ i.value.nodes.all (!·.isDefinition)
  | .load .. => false
  | .conditional _ bs _ => bs.all fun b ↦ b.condition.nodes.all Expr.definesByText
  | .unset _ ts => ts.all fun t ↦ t.exprs.all fun e ↦ e.nodes.all (!·.isDefinition)
  | .block .. | .global .. | .ret _ | .exit _ | .inlineHtml _ | .opaqueStmt _ => true

theorem Stmt.isLoad_of_isPlain {s : Stmt} (h : s.isPlain) : s.isLoad = false := by
  cases s with
  | load => cases h
  | _ => rfl

namespace Occurrence

variable {kind : EntryKind} {name : String}

/-- Where nothing is found in statements, nothing is found in a block of them either. -/
theorem inStmts_of_all {body : List Stmt} (h : all kind name body = []) :
    inStmts kind name body = [] := by
  have head := head_firstPerStatement (inStmts kind name body)
  rw [show firstPerStatement _ = _ from h] at head
  exact List.head?_eq_none_iff.1 head.symm

/-- Where a constant is not found in an expression, no call defines it by text. -/
theorem definedValue?_of_inExpr {statement : Option Span} {e : Expr}
    (h : inExpr name statement e = []) : ∀ n ∈ e.nodes, definedValue? name n = none :=
  List.filterMap_eq_nil_iff.1 (List.map_eq_nil_iff.1 h)

end Occurrence

/-! ### Runs without a definition -/

namespace Invariant

variable {kind : EntryKind} {name : String} {f : Frame} {runner : Option Runner}

theorem Kept.keeps_lift {I : Invariant} {α : Type} {x : StateM Scope α} (h : I.Kept x) :
    I.Keeps (ExceptT.lift x) := fun s hs ↦ h s hs

/-- An expression in which a constant is not found defines others only. -/
theorem mayDefine_of_inExpr (statement : Option Span) {e : Expr}
    (absent : kind = .const → Occurrence.inExpr name statement e = [])
    (named : ∀ n ∈ e.nodes, n.definesByText) : (lacks kind name).MayDefine e := by
  intro n hn s m a v es is word
  subst is
  have text := named _ hn
  rw [Expr.definesByText, word, Bool.not_true, Bool.false_or] at text
  obtain ⟨l, text⟩ := Option.isSome_iff_exists.1 text
  refine .inr ⟨l, text, fun const same ↦ ?_⟩
  subst same
  have none := Occurrence.definedValue?_of_inExpr (absent const) _ hn
  rw [Edited.definedValue?_call word text] at none
  cases none

/-- Expressions without definitions define nothing. -/
theorem mayDefine_of_isDefinition {I : Invariant} {e : Expr}
    (none : ∀ n ∈ e.nodes, n.isDefinition = false) : I.MayDefine e := by
  intro n hn s m a v es is word
  subst is
  have := none _ hn
  rw [Expr.isDefinition, word] at this
  cases this

theorem keeps_value {I : Invariant} {e : Expr} (names : I.MayDefine e) : I.Keeps (f.value e) :=
  (pure_still names f).kept.keeps_lift

/-- A variable that is not there is not there behind `unset`, either. -/
theorem kept_unset {t : Target} (indices : ∀ e ∈ t.exprs, (lacks kind name).MayDefine e) :
    (lacks kind name).Kept (f.unset t) := by
  unfold Frame.unset
  split
  · intro s hs
    show (s.unsetVariable t.name).value? kind name = none
    cases kind with
    | var =>
      by_cases same : name = t.name
      · rw [same]
        exact Assoc.lookup_erase_self _ _
      · exact (Scope.var?_unsetVariable_of_ne same s).trans hs
    | const => exact hs
    | inclusion => rfl
  · have path : (lacks kind name).Kept (f.closedKeys t.indices) :=
      (Pure.closedKeys (k := .still) fun e he ↦ pure_still (indices e he) f).kept
    refine path.bind fun path ↦ ?_
    cases path with
    | none => exact .pure _
    | some path =>
      intro s hs
      simp only [StateT.run_bind, StateT.run_get, pure_bind]
      cases there : s.var? t.name with
      | none => exact hs
      | some slot =>
        refine (lacks kind name).setVariable t.name (slot.removePath path) s (fun var same ↦ ?_) hs
        subst var same
        cases there.symm.trans hs

/-- Targets that are unset leave the entry missing. -/
theorem kept_unsetAll {ts : List Target}
    (indices : ∀ t ∈ ts, ∀ e ∈ t.exprs, (lacks kind name).MayDefine e) :
    (lacks kind name).Kept (ts.forM f.unset) := by
  induction ts with
  | nil => exact .pure _
  | cons t ts ih =>
    exact (kept_unset (indices t List.mem_cons_self)).bind fun _ ↦
      ih fun t ht ↦ indices t (List.mem_cons_of_mem _ ht)

/-- An assignment to another variable. -/
theorem kept_assign {t : Target} {e : Expr} (whole : t.indices = [])
    (other : kind = .var → t.name ≠ name) (names : (lacks kind name).MayDefine e) :
    (lacks kind name).Kept (f.assign .assign t e) := by
  obtain ⟨n, is, sp⟩ := t
  subst whole
  intro s hs
  rw [Frame.assign_plain]
  exact (lacks kind name).setVariable _ _ _ other ((pure_still names f).kept s hs)

/-- Constants of other names leave the entry missing when they are declared. -/
theorem kept_declare {is : List ConstItem} (other : kind = .const → ∀ i ∈ is, i.name ≠ name)
    (values : ∀ i ∈ is, (lacks kind name).MayDefine i.value) :
    (lacks kind name).Kept (f.declare is) :=
  (Pure.declare (k := .still) (fun i hi const ↦ other const i hi)
    fun i hi ↦ pure_still (values i hi) f).kept

mutual

/-- A statement in which an entry is not found does not define it. -/
theorem keeps_exec {s : Stmt} (plain : ∀ n ∈ s.nodes, n.isPlain)
    (absent : Occurrence.inStmt kind name s = []) :
    (lacks kind name).Keeps (f.exec runner s) := by
  have own := plain s s.mem_nodes
  -- A plain statement defines nothing that is not looked for in it, so nothing by the absent name.
  match s with
  | .expr sp e =>
    have named : ∀ n ∈ e.nodes, n.definesByText := List.all_eq_true.1 own
    refine (keeps_value (mayDefine_of_inExpr (some sp) (fun const ↦ ?_) named)).bind
      fun _ ↦ .pure _
    rwa [Occurrence.inStmt, if_pos const] at absent
  | .assign sp op t e =>
    simp only [Stmt.isPlain, Bool.and_eq_true, beq_iff_eq, List.isEmpty_iff] at own
    obtain ⟨⟨rfl, whole⟩, named⟩ := own
    refine (kept_assign whole (fun var same ↦ ?_) (mayDefine_of_inExpr none
      (fun const ↦ ?_) (List.all_eq_true.1 named))).keeps_lift.bind fun _ ↦ .pure _
    · subst var
      simp [Occurrence.inStmt, Occurrence.inAssignment, same, whole] at absent
    · subst const
      exact absent
  | .const sp is =>
    simp only [Stmt.isPlain, List.all_eq_true, Bool.not_eq_true'] at own
    refine (kept_declare (fun const ↦ ?_) fun i hi ↦
      mayDefine_of_isDefinition (own i hi)).keeps_lift.bind fun _ ↦ .pure _
    rw [Occurrence.inStmt, if_pos const] at absent
    simpa [Occurrence.inDeclaration] using absent
  | .load .. => cases own
  | .conditional sp bs none =>
    exact keeps_branches (.pure _) (List.all_eq_true.1 own)
      (fun n hn ↦ plain n (List.mem_cons_of_mem _ hn)) absent
  | .conditional sp bs (some body) =>
    obtain ⟨here, there⟩ := List.append_eq_nil_iff.1 absent
    have otherwise : (lacks kind name).Keeps (f.execAll runner body) := keeps_execAll
      (fun n hn ↦ plain n (List.mem_cons_of_mem _ (List.mem_append_right _ hn))) there
    exact keeps_branches otherwise (List.all_eq_true.1 own)
      (fun n hn ↦ plain n (List.mem_cons_of_mem _ (List.mem_append_left _ hn))) here
  | .block sp body =>
    exact keeps_execAll (fun n hn ↦ plain n (List.mem_cons_of_mem _ hn)) absent
  | .unset sp ts =>
    simp only [Stmt.isPlain, List.all_eq_true, Bool.not_eq_true'] at own
    exact (kept_unsetAll fun t ht e he ↦ mayDefine_of_isDefinition (own t ht e he)).keeps_lift.bind
      fun _ ↦ .pure _
  | .ret _ | .exit _ | .global .. | .inlineHtml _ | .opaqueStmt _ => exact .pure _

/-- Statements in which an entry is not found leave it missing. -/
theorem keeps_execAll {ss : List Stmt} (plain : ∀ n ∈ Stmt.nodesOfList ss, n.isPlain)
    (absent : Occurrence.inStmts kind name ss = []) :
    (lacks kind name).Keeps (f.execAll runner ss) := by
  match ss with
  | [] => exact .pure _
  | s :: ss =>
    obtain ⟨here, behind⟩ := List.append_eq_nil_iff.1 absent
    have first : (lacks kind name).Keeps (f.exec runner s) :=
      keeps_exec (fun n hn ↦ plain n (List.mem_append_left _ hn)) here
    refine first.bind fun flow ↦ ?_
    cases flow with
    | goOn => exact keeps_execAll (fun n hn ↦ plain n (List.mem_append_right _ hn)) behind
    | leave | stop => exact .pure _

/-- Branches in which an entry is not found leave it missing, whichever of them is chosen. -/
theorem keeps_branches {otherwise : Run Flow} {bs : List Branch}
    (other : (lacks kind name).Keeps otherwise)
    (conditions : ∀ b ∈ bs, b.condition.nodes.all Expr.definesByText)
    (plain : ∀ n ∈ Stmt.nodesOfBranches bs, n.isPlain)
    (absent : Occurrence.inBranches kind name bs = []) :
    (lacks kind name).Keeps (f.choose runner otherwise bs) := by
  match bs with
  | [] => exact other
  | .mk c body :: bs =>
    obtain ⟨here, behind⟩ := List.append_eq_nil_iff.1 absent
    obtain ⟨inCondition, inBody⟩ := List.append_eq_nil_iff.1 here
    have condition : (lacks kind name).MayDefine c := by
      refine mayDefine_of_inExpr none (fun const ↦ ?_)
        (List.all_eq_true.1 (conditions _ List.mem_cons_self))
      rwa [if_pos const] at inCondition
    refine (keeps_value condition).bind fun v ↦ ?_
    split
    · exact .pure _
    split
    · exact keeps_execAll (fun n hn ↦ plain n (List.mem_append_left _ hn)) inBody
    · exact keeps_branches other (fun b hb ↦ conditions b (List.mem_cons_of_mem _ hb))
        (fun n hn ↦ plain n (List.mem_append_right _ hn)) behind

end

end Invariant

/-! ### Reading and finding -/

namespace Edit

/-- If every definition of a script is one of those that are looked for, then whatever is read from it
is found in a file with this text. -/
theorem fileDefines_of_mem_readSource {env env' : Environment} {path file : Path}
    {source : List Char} {body : List Stmt} {reader : Reader} {es : List Entry} {e : Entry}
    (held : env.Holds path source) (parsed : parse source = .ok body)
    (plain : ∀ n ∈ Stmt.nodesOfList body, n.isPlain)
    (read : reader.readSource env' source file = .ok es) (mem : e ∈ es)
    (editable : e.kind ≠ .inclusion) : fileDefines env path e.kind e.name = .ok true := by
  rw [fileDefines_of_loadFile editable (loadFile_of_holds held parsed)]
  cases all : Occurrence.all e.kind e.name body with
  | cons => rfl
  | nil =>
    exfalso
    obtain ⟨flow, after, run⟩ := (Frame.mk env' source file).exists_execAll
      (some (runNested env' 31)) (fun n hn ↦ Stmt.isLoad_of_isPlain (plain n hn)) (reader.start file)
    rw [Reader.readSource_of_execAll parsed run] at read
    obtain rfl := Except.ok.inj read
    obtain ⟨absent, there⟩ := Snapshot.value?_of_mem_diff mem editable
    have kept : (Invariant.lacks e.kind e.name).Keeps
        ((Frame.mk env' source file).execAll (some (runNested env' 31)) body) :=
      Invariant.keeps_execAll plain (Occurrence.inStmts_of_all all)
    have behind := kept (reader.start file) absent
    rw [run] at behind
    rw [show after.value? e.kind e.name = none from behind] at there
    cases there

/-- A constant that is defined in the value of another one, in a branch. -/
theorem fileDefines_branch : fileDefines
    (.single "<?php if (!defined('A')) \x7b define('A', [define('B', 2)]); \x7d".toList) ⟨['/', 'a']⟩ .const
      "B" = .ok true := by
  let source := "<?php if (!defined('A')) \x7b define('A', [define('B', 2)]); \x7d".toList
  obtain ⟨body, parsed, plain⟩ := exists_of_any
    (show (parse source).toOption.any (fun body ↦ (Stmt.nodesOfList body).all Stmt.isPlain) by
      decide +kernel)
  obtain ⟨es, read, entries⟩ := exists_of_any
    (show (Reader.standard.readSource (.single source) source ⟨['/', 'a']⟩).toOption.any (fun es ↦
      es.any fun e ↦ e.kind = .const ∧ e.name = "B") by decide +kernel)
  obtain ⟨e, mem, kind, name⟩ : ∃ e ∈ es, e.kind = .const ∧ e.name = "B" := by simpa using entries
  rw [← kind, ← name]
  exact fileDefines_of_mem_readSource (Environment.holds_single source) parsed
    (List.all_eq_true.1 plain) read mem (by rw [kind]; nofun)

end Edit

end ConfigScript
