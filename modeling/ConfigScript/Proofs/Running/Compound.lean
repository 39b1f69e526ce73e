import ConfigScript.Proofs.Assoc
import ConfigScript.Proofs.Running.Found
import ConfigScript.Proofs.Running.Until

/-!
# Compound assignments

A compound assignment `$t op= e` computes from the old value of the variable, as the assignment
`$t = $t op e` does by evaluating its right side. If `e` defines no constant, its evaluation leaves
the scope alone (`Frame.eval_still`), and the two assignments can differ in the value of the
variable only (`Frame.exec_operator`).

They do differ in one case. An operator is applied to operands that are known (`Value.operated`),
but a compound assignment applies it to any (`Value.compounded`). Where an operand is unknown,
addition and subtraction have no result, so that the variable is unknown, too. But there is a
concatenation, which contains the source text of the operand.
-/

namespace ConfigScript

open Script

/-- To give a variable the value that it has changes nothing. -/
theorem Scope.setVariable_eq_self {s : Scope} {n : String} {v : Value} (h : s.var? n = some v) :
    s.setVariable n v = s := by
  rw [setVariable, Assoc.insert_eq_self h]

/-! ### Operators -/

/-- The operator that a compound assignment applies. -/
def AssignOp.operator? : AssignOp → Option BinaryOp
  | .assign => none
  | .concat => some .concat
  | .add => some .add
  | .sub => some .sub
  | .coalesce => some .coalesce

namespace Value

variable {x y u w : Value} {o : BinaryOp}

theorem Alike.of_isOpaque (hx : x.isOpaque) (hy : y.isOpaque) : Alike x y := .inr ⟨hx, hy⟩

theorem isNull_eq_false_of_isOpaque (h : x.isOpaque) : x.isNull = false := by
  cases x with
  | expression => rfl
  | _ => cases h

/-- There is no arithmetic with an unknown value. -/
theorem arithmeticOf?_of_isOpaque {op : ArithmeticOp} (h : x.isOpaque ∨ y.isOpaque) :
    arithmeticOf? op x y = none := by
  have noNumber : ∀ {v : Value}, v.isOpaque → v.numeric? = none := fun {v} unknown ↦ by
    cases v with
    | expression => rfl
    | _ => cases unknown
  rw [arithmeticOf?]
  rcases h with left | right
  · rw [noNumber left, Option.bind_none]
  · simp only [noNumber right, Option.bind_none, Option.bind_fun_none]

/-- Addition has no result for an unknown operand: only two arrays have a union. -/
theorem binary?_add_of_isOpaque (h : x.isOpaque ∨ y.isOpaque) : binary? .add x y = none := by
  have sum : binary? .add x y = arithmeticOf? .add x y := by
    cases x with
    | array a =>
      cases y with
      | array b => rcases h with h | h <;> cases h
      | _ => rfl
    | _ => rfl
  rw [sum, arithmeticOf?_of_isOpaque h]

/-- The value of a binary expression, from the values of its operands. -/
def operated (o : BinaryOp) (x y unknown : Value) : Value :=
  if x.isOpaque then unknown
  else match Meaning.shortcut? o x with
    | some v => v
    | none => if y.isOpaque then unknown else (binary? o x y).getD unknown

/-- The value behind a compound assignment, from the old value of the variable and the value of the
right side. -/
def compounded (op : AssignOp) (x y unknown : Value) : Value :=
  if op == .coalesce && !x.isNull then x else Frame.assigned op (some x) y unknown

/-- An operator with an operand that is not known has no known value. -/
theorem operated_of_isOpaque (h : x.isOpaque ∨ y.isOpaque)
    (both : Meaning.shortcut? o x = none) (u : Value) : operated o x y u = u := by
  by_cases left : x.isOpaque
  · rw [operated, if_pos left]
  · rw [operated, if_neg left, both]
    exact if_pos (h.resolve_left left)

/-- An operator with known operands has the value that it computes from these. -/
theorem operated_of_known (left : ¬x.isOpaque) (right : ¬y.isOpaque)
    (both : Meaning.shortcut? o x = none) (u : Value) :
    operated o x y u = (binary? o x y).getD u := by
  rw [operated, if_neg left, both]
  exact if_neg right

/-- An arithmetical operator yields the same on both ways, or is unknown on both. -/
theorem alike_arithmetical (both : Meaning.shortcut? o x = none)
    (none : x.isOpaque ∨ y.isOpaque → binary? o x y = none) (hu : u.isOpaque) (hw : w.isOpaque) :
    Alike ((binary? o x y).getD u) (operated o x y w) := by
  by_cases h : x.isOpaque ∨ y.isOpaque
  · rw [none h, operated_of_isOpaque h both]
    exact .of_isOpaque hu hw
  · rw [not_or] at h
    rw [operated_of_known h.1 h.2 both]
    cases binary? o x y with
    | none => exact .of_isOpaque hu hw
    | some v => exact .inl rfl

/-- A default for `null` is the same on both ways. -/
theorem alike_default (hw : w.isOpaque) :
    Alike (compounded .coalesce x y u) (operated .coalesce x y w) := by
  have old : compounded .coalesce x y u = if x.isNull then y else x := by
    cases x <;> rfl
  rw [old]
  by_cases left : x.isOpaque
  · rw [if_neg (by rw [isNull_eq_false_of_isOpaque left]; nofun), operated, if_pos left]
    exact .of_isOpaque left hw
  by_cases null : x.isNull
  · have both : Meaning.shortcut? .coalesce x = none := if_pos null
    rw [if_pos null]
    by_cases right : y.isOpaque
    · rw [operated_of_isOpaque (.inr right) both]
      exact .of_isOpaque right hw
    · rw [operated_of_known left right both]
      exact .inl (if_pos null).symm
  · have known : Meaning.shortcut? .coalesce x = some x := if_neg null
    rw [if_neg null, operated, if_neg left, known]
    exact .inl rfl

/-- A compound assignment and the expression with its operator yield the same or are unknown both,
except for a concatenation of what is unknown: only the expression is unknown then. -/
theorem alike_operator {op : AssignOp} (operator : op.operator? = some o)
    (hu : u.isOpaque) (hw : w.isOpaque) :
    if op = .concat ∧ (x.isOpaque ∨ y.isOpaque) then
      compounded op x y u = .string (x.toText ++ y.toText) ∧ (operated o x y w).isOpaque
    else Alike (compounded op x y u) (operated o x y w) := by
  cases op with
  | assign => cases operator
  | concat =>
    obtain rfl : BinaryOp.concat = o := Option.some.inj operator
    by_cases h : x.isOpaque ∨ y.isOpaque
    · rw [if_pos ⟨rfl, h⟩, operated_of_isOpaque h rfl]
      exact ⟨rfl, hw⟩
    · rw [if_neg fun both ↦ h both.2]
      rw [not_or] at h
      rw [operated_of_known h.1 h.2 rfl]
      exact .inl rfl
  | add =>
    obtain rfl : BinaryOp.add = o := Option.some.inj operator
    rw [if_neg (by nofun)]
    exact alike_arithmetical rfl binary?_add_of_isOpaque hu hw
  | sub =>
    obtain rfl : BinaryOp.sub = o := Option.some.inj operator
    rw [if_neg (by nofun)]
    exact alike_arithmetical rfl arithmeticOf?_of_isOpaque hu hw
  | coalesce =>
    obtain rfl : BinaryOp.coalesce = o := Option.some.inj operator
    rw [if_neg (by nofun)]
    exact alike_default hw

end Value

/-- An operator on operands that leave the scope alone. -/
theorem Meaning.run_binary {s : Scope} {lhs rhs : Meaning} {x y : Value} (o : BinaryOp) (u : Value)
    (left : lhs.value.run s = (x, s)) (right : rhs.value.run s = (y, s)) :
    (binary u o lhs rhs).run s = (Value.operated o x y u, s) := by
  rw [binary, StateT.run_bind, left]
  show StateT.run (if x.isOpaque then _ else _) s = _
  rw [Value.operated]
  split
  · rfl
  cases shortcut? o x with
  | some v => rfl
  | none =>
    show StateT.run (rhs.value >>= _) s = _
    rw [StateT.run_bind, right]
    rfl

namespace Frame

variable {f : Frame} {s : Scope} {e : Expr}

/-- An expression without definitions leaves the scope as it is. -/
theorem eval_still (none : ∀ n ∈ e.nodes, n.isDefinition = false) (s : Scope) :
    ((f.eval e).run s).2 = s := by
  -- The invariant is the scope itself. No name may be given a value, so it is never broken.
  let still : Invariant :=
    { holds := fun t ↦ t = s, constants := fun _ ↦ False, vars := fun _ ↦ False
      define := fun _ _ _ no ↦ no.elim, setVariable := fun _ _ _ no ↦ no.elim
      unsetVariable := fun _ _ no ↦ no.elim }
  have names : still.MayDefine e := Invariant.mayDefine_of_isDefinition none
  exact (Invariant.pure_still names f).kept s rfl

theorem eval_var (sp : Span) (n : String) :
    (f.eval (.var sp n)).run s = ((s.var? n).getD .null, s) := by
  simp only [eval, meaning]
  rfl

/-- A binary expression with a variable on the left. -/
theorem eval_operator (none : ∀ n ∈ e.nodes, n.isDefinition = false) (sp sv : Span) (o : BinaryOp)
    (n : String) : (f.eval (.binary sp o (.var sv n) e)).run s =
      (Value.operated o ((s.var? n).getD .null) ((f.eval e).run s).1 (f.unknown sp), s) := by
  have right : (f.eval e).run s = (((f.eval e).run s).1, s) := Prod.ext rfl (eval_still none s)
  have operands : f.eval (.binary sp o (.var sv n) e) =
      Meaning.binary (f.unknown sp) o (f.meaning (.var sv n)) (f.meaning e) := by
    rw [eval, meaning]
    rfl
  rw [operands]
  exact Meaning.run_binary o _ (eval_var sv n) right

/-- An assignment to a whole variable. Behind `??=` a variable keeps a value that is not null. -/
theorem assign_whole (op : AssignOp) (n : String) (st : Span) :
    (f.assign op ⟨n, [], st⟩ e).run s =
      let x := (s.var? n).getD .null
      let y := (f.eval e).run s
      if op == .coalesce && !x.isNull then ((), s)
      else ((), y.2.setVariable n (assigned op (some x) y.1 (f.unknown (st.through e.span)))) := by
  simp only [assign, keys, pure_bind, StateT.run_bind, StateT.run_get]
  generalize (s.var? n).getD .null = x
  show StateT.run (if op == .coalesce && !x.isNull then pure () else _) s = _
  split <;> rfl

/-- A compound assignment to a whole variable gives it a value and does nothing else. -/
theorem assign_compounded (none : ∀ n ∈ e.nodes, n.isDefinition = false) (op : AssignOp)
    (n : String) (st : Span) : (f.assign op ⟨n, [], st⟩ e).run s =
      ((), s.setVariable n (Value.compounded op ((s.var? n).getD .null) ((f.eval e).run s).1
        (f.unknown (st.through e.span)))) := by
  rw [assign_whole, Value.compounded]
  dsimp only
  rw [eval_still none]
  split
  · rename_i kept
    -- The variable is not null, so it is there and gets the value that it has.
    cases there : s.var? n with
    | none =>
      rw [there, Bool.and_comm] at kept
      cases kept
    | some x => rw [Option.getD_some, Scope.setVariable_eq_self there]
  · rfl

theorem exec_assign (runner : Option Runner) (sp : Span) (op : AssignOp) (t : Target) (e : Expr)
    (s : Scope) : (f.exec runner (.assign sp op t e)).outcome s =
      (.ok .goOn, ((f.assign op t e).run s).2) := rfl

/-- A compound assignment `$t op= e` and the assignment `$t = $t op e`, where `e` defines no
constant, give a value to `$t` and do nothing else. The values are the same, or both are unknown. It
is otherwise with the concatenation of an unknown operand: the first value is then the text of the
operands, and the second one is unknown. -/
theorem exec_operator {op : AssignOp} {o : BinaryOp} (operator : op.operator? = some o)
    (none : ∀ n ∈ e.nodes, n.isDefinition = false) (runner : Option Runner) (n : String)
    (s₁ s₂ s₃ st st' sv : Span) (s : Scope) :
    let x := (s.var? n).getD .null
    let y := ((f.eval e).run s).1
    ∃ v w,
      (f.exec runner (.assign s₁ op ⟨n, [], st⟩ e)).outcome s = (.ok .goOn, s.setVariable n v) ∧
      (f.exec runner (.assign s₂ .assign ⟨n, [], st'⟩ (.binary s₃ o (.var sv n) e))).outcome s =
        (.ok .goOn, s.setVariable n w) ∧
      if op = .concat ∧ (x.isOpaque ∨ y.isOpaque) then
        v = .string (x.toText ++ y.toText) ∧ w.isOpaque
      else v.Alike w := by
  intro x y
  refine ⟨Value.compounded op x y (f.unknown (st.through e.span)),
    Value.operated o x y (f.unknown s₃), ?_, ?_, Value.alike_operator operator rfl rfl⟩
  · rw [exec_assign, assign_compounded none]
  · rw [exec_assign, assign_plain, eval_operator none]

/-- A function that is not known, at the end of a text. -/
example : (Reader.standard.readSource (.single [])
    "<?php $t = 'x'; $t .= f(); $u = 'x'; $u = $u . f();".toList ⟨['/', 'a']⟩).toOption.map
      (·.map Entry.value) = some [.string "xf()", .expression "$u . f()"] := by decide +kernel

end Frame

end ConfigScript
