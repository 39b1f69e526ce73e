import ConfigScript.Proofs.Parsing.Yields
import ConfigScript.Proofs.Patching.Twins

/-!
# Where expressions stop

At a token that no expression begins with and none goes on with, the parser of expressions reads
nothing: what has to read something fails, and what may go on stays.
-/

namespace ConfigScript.Script

/-- Whether no expression goes on with the token, nor begins with it. -/
def isStop (t : Token) : Bool := isBarrier t || endsValue t || leadsToHole t

/-- A token at which expressions stop is one of these. -/
theorem kind_of_isStop {t : Token} (h : isStop t) : t.kind = .punct .semicolon ∨
    t.kind = .punct .openBrace ∨ t.kind = .punct .closeBrace ∨ t.kind = .openTag ∨
    t.kind = .closeTag ∨ t.kind = .inlineHtml ∨ t.kind = .punct .comma ∨
    t.kind = .punct .closeParen ∨ t.kind = .punct .assign := by
  obtain ⟨kind, span, text⟩ := t
  simp only [isStop, isBarrier, endsValue, leadsToHole] at h ⊢
  cases kind with
  | punct p => cases p <;> simp_all
  | _ => simp_all

variable {s : Span} {t : Token} {r : List Token}

theorem ends_of_isStop (h : isStop t) : endsExpression t := by
  rcases kind_of_isStop h with h | h | h | h | h | h | h | h | h <;>
    simp [endsExpression, endsOperand, operator?, punctOperator?, Token.isPunct, Token.keyword?, h]

theorem endsOperand_of_isStop (h : isStop t) : endsOperand t := by
  have ends := ends_of_isStop h
  simp only [endsExpression, Bool.and_eq_true] at ends
  exact ends.1.1

/-- Whether an operand may begin with the token. -/
def beginsOperand (t : Token) : Bool :=
  match t.kind with
  | .int _ | .float _ | .str _ | .var _ | .ident _ | .punct .openParen | .punct .openBracket
  | .punct .bang | .punct .minus | .punct .plus | .punct .tilde | .punct .silence => true
  | _ => false

/-- No literal is read from a token that begins no operand. -/
theorem literal?_of_begins (h : beginsOperand t = false) : literal? t = none := by
  unfold literal?
  split
  case h_5 => rfl
  all_goals
    rename_i kind
    rw [beginsOperand, kind] at h
    cases h

/-- A token that begins no operand is no prefix operator. -/
theorem prefixOperator?_of_begins (h : beginsOperand t = false) : prefixOperator? t = none := by
  unfold prefixOperator?
  split
  case h_6 => rfl
  all_goals
    rename_i kind
    rw [beginsOperand, kind] at h
    cases h

/-- No operand is read where none begins. -/
theorem primary_of_begins (h : beginsOperand t = false) : ∃ e, primary ⟨s, t :: r⟩ = .error e := by
  obtain ⟨_, step⟩ := Cursor.advance_cons s t r
  have none := literal?_of_begins h
  rw [primary, step]
  simp only [bind, Except.bind, none]
  split
  case h_1 same => cases same
  case h_5 => exact ⟨_, rfl⟩
  all_goals
    rename_i kind
    rw [beginsOperand, kind] at h
    cases h

/-- No operand with anything in front of it is read where none begins. -/
theorem unary_of_begins (h : beginsOperand t = false) : ∃ e, unary ⟨s, t :: r⟩ = .error e := by
  obtain ⟨_, step⟩ := Cursor.advance_cons s t r
  obtain ⟨e, base⟩ := @primary_of_begins s t r h
  have noCast : cast? ⟨s, t :: r⟩ = none := by
    refine cast?_eq_none (Bool.eq_false_iff.2 fun paren ↦ ?_)
    rw [Token.isPunct, beq_iff_eq] at paren
    simp [beginsOperand, paren] at h
  rw [unary, step]
  simp only [bind, Except.bind, prefixOperator?_of_begins h, noCast, base]
  split <;> exact ⟨_, rfl⟩

theorem expression_of_begins (min : Nat) (h : beginsOperand t = false) :
    ∃ e, expression min ⟨s, t :: r⟩ = .error e := by
  obtain ⟨e, he⟩ := @unary_of_begins s t r h
  rw [expression, he]
  exact ⟨e, rfl⟩

theorem begins_of_isStop (h : isStop t) : beginsOperand t = false := by
  rcases kind_of_isStop h with h | h | h | h | h | h | h | h | h <;> simp [beginsOperand, h]

theorem isMemberName_of_isStop (h : isStop t) : isMemberName t = false := by
  rcases kind_of_isStop h with h | h | h | h | h | h | h | h | h <;> simp [isMemberName, h]

theorem punct?_of_isStop {p : Punct} (h : isStop t) (hp : p ∉ [Punct.semicolon, .openBrace,
    .closeBrace, .comma, .closeParen, .assign]) : (Cursor.mk s (t :: r)).punct? p = none := by
  refine Cursor.punct?_eq_none fun hk ↦ ?_
  rcases kind_of_isStop h with h | h | h | h | h | h | h | h | h <;> rw [h] at hk <;>
    injection hk <;> subst_vars <;> simp at hp

end ConfigScript.Script
