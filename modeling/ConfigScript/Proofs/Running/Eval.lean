import ConfigScript.Proofs.Running.Step

/-!
# Evaluating expressions

What the evaluation of an expression yields and leaves behind, in terms of the evaluation of its
parts: one equation for each construct that later modules evaluate.
-/

namespace ConfigScript.Frame

open Script

variable (f : Frame) (s : Scope)

-- All proofs below need equations of the recursion. Here they are derived once, in front of them.
attribute [local simp] meaning

/-- A text has itself as value and changes nothing. -/
theorem eval_text (sp : Span) (v : String) :
    (f.eval (.str sp [.text v])).run s = (.string v, s) := by
  simp only [eval, meaning, Meaning.ofValue, Meaning.interpolate, Option.map_some,
    String.append_empty, StateT.run_bind, StateT.run_get, pure_bind, StateT.run_pure,
    Option.getD_some]
  rfl

theorem eval_const (sp : Span) (n : String) :
    (f.eval (.const sp n)).run s = ((s.constant? n).getD (f.unknown sp), s) := by
  simp only [eval, meaning]
  rfl

theorem eval_magic (sp : Span) (k : MagicConstant) :
    (f.eval (.magic sp k)).run s = (f.magic sp k, s) := by
  simp only [eval, meaning]
  rfl

/-- A prefix operator computes from the value of its operand. -/
theorem eval_unary (sp : Span) (op : UnaryOp) (e : Expr) :
    (f.eval (.unary sp op e)).run s =
      let x := (f.eval e).run s
      (if x.1.isOpaque then f.unknown sp else (Value.unary? op x.1).getD (f.unknown sp), x.2) := by
  simp only [eval, meaning]
  rfl

/-- A binary operator that needs both operands and knows them. -/
theorem eval_binary {s s₁ s₂ : Scope} {l r : Expr} {x y : Value} (sp : Span) (op : BinaryOp)
    (hl : (f.eval l).run s = (x, s₁)) (hr : (f.eval r).run s₁ = (y, s₂))
    (known : x.isOpaque = false ∧ y.isOpaque = false) (both : Meaning.shortcut? op x = none) :
    (f.eval (.binary sp op l r)).run s = ((Value.binary? op x y).getD (f.unknown sp), s₂) := by
  simp only [eval] at hl hr
  simp only [eval, meaning, Meaning.ofValue, Meaning.binary, StateT.run_bind, hl]
  show StateT.run (if x.isOpaque then _ else _) s₁ = _
  rw [known.1, if_neg Bool.false_ne_true, both]
  simp only [StateT.run_bind, hr]
  show StateT.run (pure (if y.isOpaque then _ else _)) s₂ = _
  rw [known.2, if_neg Bool.false_ne_true]
  rfl

/-- A call evaluates as the function that its name, in lower case, stands for. -/
theorem eval_call (sp : Span) (n : String) (args : List Expr) :
    (f.eval (.call sp n args)).run s =
      let word := String.ofList (lower n.toList)
      let x := (Meaning.call f.environment word (f.meanings args)).run s
      (x.1.getD (f.unknown sp), x.2) := by
  simp only [eval, meaning]
  rfl

theorem interpolate_text (s : Scope) (v : String) :
    Meaning.interpolate s [.text v] = some v := by simp [Meaning.interpolate]

/-- A definition with a text for the name. -/
theorem eval_define {s s' : Scope} {e : Expr} {v : Value} (s₁ s₂ : Span) (n : String)
    (value : (f.eval e).run s = (v, s')) :
    (f.eval (.call s₁ "define" [.str s₂ [.text n], e])).run s =
      (.bool (s'.define n v).1, (s'.define n v).2) := by
  have word : String.ofList (lower "define".toList) = "define" := by decide
  simp only [eval] at value
  have call : (Meaning.call f.environment "define" (f.meanings [.str s₂ [.text n], e])).run s =
      (some (.bool (s'.define n v).1), (s'.define n v).2) := by
    show (Meaning.define (f.meanings [.str s₂ [.text n], e])).run s = _
    simp only [Meaning.define, meanings, meaning, Meaning.ofValue, interpolate_text,
      Option.map_some, Option.getD_some, bind_pure_comp, StateT.run_bind, StateT.run_map,
      StateT.run_get, pure_bind, map_pure, value]
    rfl
  simp only [eval_call, word, call]
  rfl

/-- A definition with a text for the name, as a statement. -/
theorem exec_define {s s' : Scope} {e : Expr} {v : Value} (runner : Option Runner) (s₁ s₂ s₃ : Span)
    (n : String) (value : (f.eval e).run s = (v, s')) :
    (f.exec runner (.expr s₁ (.call s₂ "define" [.str s₃ [.text n], e]))).outcome s =
      (.ok .goOn, (s'.define n v).2) := by
  simp only [exec, Frame.value, Run.outcome_bind, Run.outcome_lift, f.eval_define s₂ s₃ n value,
    Run.outcome_pure]

/-- A constant that is not defined is known not to be. -/
theorem eval_defined (s₁ s₂ : Span) (n : String) :
    (f.eval (.call s₁ "defined" [.str s₂ [.text n]])).run s =
      (.bool (s.constant? n).isSome, s) := by
  have word : String.ofList (lower "defined".toList) = "defined" := by decide
  have call : (Meaning.call f.environment "defined" (f.meanings [.str s₂ [.text n]])).run s =
      (some (.bool (s.constant? n).isSome), s) := by
    show (Meaning.callBuiltin f.environment "defined" (f.meanings [.str s₂ [.text n]])).run s = _
    simp only [Meaning.callBuiltin, meanings, meaning, Meaning.ofValue, Meaning.values,
      interpolate_text,
      Option.map_some, Option.getD_some, bind_pure_comp, StateT.run_bind, StateT.run_map,
      StateT.run_get, pure_bind, map_pure]
    rfl
  simp only [eval_call, word, call]
  rfl

/-- A plain assignment gives the variable the value of the right side. -/
theorem assign_plain (n : String) (sp : Span) (e : Expr) :
    (f.assign .assign ⟨n, [], sp⟩ e).run s =
      ((), ((f.eval e).run s).2.setVariable n ((f.eval e).run s).1) := by
  have notCoalesce : (AssignOp.assign == AssignOp.coalesce) = false := by decide
  simp only [Frame.assign, Frame.keys, pure_bind, StateT.run_bind, StateT.run_get, notCoalesce,
    Bool.false_and, Bool.false_eq_true, if_false, Value.setPath]
  rfl

theorem execAll_cons {f : Frame} {runner : Option Runner} {a : Stmt} (as : List Stmt)
    {s s' : Scope} (h : (f.exec runner a).outcome s = (.ok .goOn, s')) :
    (f.execAll runner (a :: as)).outcome s = (f.execAll runner as).outcome s' := by
  rw [Frame.execAll, Run.outcome_bind_ok h]

end ConfigScript.Frame
