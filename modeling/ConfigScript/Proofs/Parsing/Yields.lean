import ConfigScript.Script.Parser.Statement

/-!
# Parsing known tokens

What the parser makes of tokens that are known one by one. `Yields x a c` says that the result `x`
is the value `a` with the cursor `c` behind it; the proof that tokens were read, which a result
carries along, is out of sight, so results of steps may be rewritten freely. There is one lemma for
each way in which a written statement goes on; the statements that this library writes are put
together from them at the end.
-/

namespace ConfigScript.Script

/-- The result is `a`, and the parser goes on at `next`. -/
def Yields {α : Type} {n : Nat} (x : Parse (Read α n)) (a : α) (next : Cursor) : Prop :=
  ∃ h, x = .ok ⟨a, next, h⟩

theorem Yields.of_eq {α : Type} {n : Nat} {x : Parse (Read α n)} {a b : α} {next : Cursor}
    (h : Yields x a next) (same : a = b) : Yields x b next := same ▸ h

/-! ### Results that are checked -/

/-- A result that is some value is that of a success. -/
theorem eq_ok_of_toOption {ε α : Type} {x : Except ε α} {a : α} (h : x.toOption = some a) :
    x = .ok a := by
  cases x with
  | error e => cases h
  | ok b => rw [Option.some.inj h]

/-- A result of which something holds is that of a success. -/
theorem exists_of_any {ε α : Type} {x : Except ε α} {p : α → Bool} (h : x.toOption.any p) :
    ∃ a, x = .ok a ∧ p a := by
  obtain ⟨a, found, holds⟩ := (Option.any_eq_true _ _).1 h
  exact ⟨a, eq_ok_of_toOption found, holds⟩

/-! ### Steps of a cursor -/

namespace Cursor

variable {s : Span} {t : Token} {r : List Token}

theorem advance_cons (s : Span) (t : Token) (r : List Token) :
    Yields (Cursor.mk s (t :: r)).advance t ⟨t.span, r⟩ := ⟨_, rfl⟩

/-- Punctuation ahead is found. -/
theorem punct?_of_kind {p : Punct} (h : t.kind = .punct p) :
    ∃ shorter, (Cursor.mk s (t :: r)).punct? p = some ⟨t, ⟨t.span, r⟩, shorter⟩ := by
  have is : t.isPunct p = true := by simp [Token.isPunct, h]
  refine ⟨Nat.lt_succ_self _, ?_⟩
  simp [punct?, accept?, is]

theorem punct?_eq_none {p : Punct} (h : t.kind ≠ .punct p) :
    (Cursor.mk s (t :: r)).punct? p = none := by
  simp [punct?, accept?, Token.isPunct, h]

theorem keyword?_eq_none {w : String} (h : t.keyword? ≠ some w) :
    (Cursor.mk s (t :: r)).keyword? w = none := by
  simp [keyword?, accept?, Token.isKeyword, h]

theorem atPunct_cons {p : Punct} : (Cursor.mk s (t :: r)).atPunct p = t.isPunct p := rfl

/-- Punctuation that is ahead may be expected. -/
theorem expect_of_kind {p : Punct} (h : t.kind = .punct p) :
    Yields ((Cursor.mk s (t :: r)).expect p) t.span ⟨t.span, r⟩ := by
  have is : t.isPunct p = true := by simp [Token.isPunct, h]
  obtain ⟨shorter, step⟩ := advance_cons s t r
  refine ⟨shorter, ?_⟩
  rw [expect, step]
  simp only [bind, Except.bind, is, if_true]
  rfl

/-- A semicolon ends a statement. -/
theorem terminator_of_semicolon (last : Span) (h : t.kind = .punct .semicolon) :
    Yields ((Cursor.mk s (t :: r)).terminator last) t.span ⟨t.span, r⟩ := by
  have is : t.isPunct .semicolon = true := by simp [Token.isPunct, h]
  obtain ⟨shorter, step⟩ := advance_cons s t r
  refine ⟨Nat.lt_succ_of_lt shorter, ?_⟩
  rw [terminator, step]
  simp only [is, if_true]
  rfl

end Cursor

/-! ### Expressions -/

/-- Whether no expression holds the token. -/
def isBarrier (t : Token) : Bool :=
  match t.kind with
  | .punct .semicolon | .punct .openBrace | .punct .closeBrace | .openTag | .closeTag
  | .inlineHtml => true
  | _ => false

/-- Whether an expression may end in front of the token. -/
def endsValue (t : Token) : Bool :=
  match t.kind with
  | .punct .comma | .punct .closeParen | .punct .semicolon | .closeTag => true
  | _ => false

/-- Whether a hole begins behind the token. -/
def leadsToHole (t : Token) : Bool :=
  match t.kind with
  | .punct .comma | .punct .assign => true
  | _ => false

/-- Whether an argument of a call that is a plain text ends with the token. -/
def endsText (t : Token) : Bool :=
  match t.kind with
  | .str _ | .punct .closeParen => true
  | _ => false

/-- No index, member or call goes on with the token. -/
def endsOperand (t : Token) : Bool :=
  match t.kind with
  | .punct .openBracket | .punct .arrow | .punct .nullsafeArrow | .punct .doubleColon
  | .punct .openParen | .punct .increment | .punct .decrement => false
  | _ => true

/-- No expression goes on with the token. -/
def endsExpression (t : Token) : Bool :=
  endsOperand t && !t.isPunct .question && (operator? t).isNone

/-- Nothing follows an operand in front of a token that ends it. -/
theorem suffixes_of_ends {e : Expr} {s : Span} {t : Token} {r : List Token} (h : endsOperand t) :
    Yields (suffixes e ⟨s, t :: r⟩) e ⟨s, t :: r⟩ := by
  obtain ⟨_, step⟩ := Cursor.advance_cons s t r
  refine ⟨Nat.lt_succ_self _, ?_⟩
  rw [suffixes, step]
  dsimp only
  unfold endsOperand at h
  split <;> simp_all [Cursor.stay]

/-- Nothing follows an expression in front of a token that ends it. -/
theorem operators_of_ends {min : Nat} {e : Expr} {s : Span} {t : Token} {ts : List Token}
    (h : endsExpression t) : Yields (operators min e ⟨s, t :: ts⟩) e ⟨s, t :: ts⟩ := by
  simp only [endsExpression, Bool.and_eq_true, Bool.not_eq_true', Option.isNone_iff_eq_none] at h
  have question : t.kind ≠ .punct .question := by
    intro hk
    simp [Token.isPunct, hk] at h
  refine ⟨Nat.lt_succ_self _, ?_⟩
  rw [operators, Cursor.punct?_eq_none question]
  simp [binary?, h.2, Cursor.stay]

/-- An expression is an operand and the operators behind it. -/
theorem expression_of_unary {m : Nat} {c c₁ c₂ : Cursor} {a b : Expr}
    (operand : Yields (unary c) a c₁) (whole : Yields (operators m a c₁) b c₂) :
    Yields (expression m c) b c₂ := by
  obtain ⟨h₁, operand⟩ := operand
  obtain ⟨h₂, whole⟩ := whole
  refine ⟨Nat.lt_of_le_of_lt (Nat.le_of_lt_succ h₂) h₁, ?_⟩
  rw [expression, operand]
  simp only [bind, Except.bind, whole]
  rfl

/-- Without a parenthesis there is no cast. -/
theorem cast?_eq_none {s : Span} {t : Token} {ts : List Token} (h : t.isPunct .openParen = false) :
    cast? ⟨s, t :: ts⟩ = none := by
  unfold cast?
  split
  · rename_i heq
    injection heq with ht _
    subst ht
    simp [h]
  · rfl

/-- An operand that begins with no prefix operator and no cast. -/
theorem unary_of_operand {s : Span} {t : Token} {ts : List Token} {c₁ c₂ : Cursor} {a b : Expr}
    (plain : prefixOperator? t = none ∧ isReferenceMark t = false)
    (noCast : cast? ⟨s, t :: ts⟩ = none) (base : Yields (primary ⟨s, t :: ts⟩) a c₁)
    (whole : Yields (suffixes a c₁) b c₂) : Yields (unary ⟨s, t :: ts⟩) b c₂ := by
  obtain ⟨_, step⟩ := Cursor.advance_cons s t ts
  obtain ⟨h₁, base⟩ := base
  obtain ⟨h₂, whole⟩ := whole
  refine ⟨Nat.lt_of_le_of_lt (Nat.le_of_lt_succ h₂) h₁, ?_⟩
  rw [unary, step]
  simp only [bind, Except.bind, plain.1, plain.2, noCast, Bool.false_eq_true, if_false, base, whole]
  rfl

/-- An operand that begins with no prefix operator and no parenthesis. -/
theorem unary_of_primary {s : Span} {t : Token} {ts : List Token} {c₁ c₂ : Cursor} {a b : Expr}
    (plain : prefixOperator? t = none ∧ isReferenceMark t = false ∧ t.isPunct .openParen = false)
    (base : Yields (primary ⟨s, t :: ts⟩) a c₁) (whole : Yields (suffixes a c₁) b c₂) :
    Yields (unary ⟨s, t :: ts⟩) b c₂ :=
  unary_of_operand ⟨plain.1, plain.2.1⟩ (cast?_eq_none plain.2.2) base whole

/-- A literal is an operand. -/
theorem primary_of_literal {s : Span} {t : Token} {r : List Token} {e : Expr}
    (h : literal? t = some e) : Yields (primary ⟨s, t :: r⟩) e ⟨t.span, r⟩ := by
  obtain ⟨shorter, step⟩ := Cursor.advance_cons s t r
  refine ⟨shorter, ?_⟩
  rw [primary, step]
  simp only [bind, Except.bind, h]
  rfl

/-- What a name begins is an operand. -/
theorem primary_of_ident {s : Span} {t : Token} {ts : List Token} {n : String} {e : Expr}
    {c : Cursor} (h : t.kind = .ident n) (whole : Yields (named n t ⟨t.span, ts⟩) e c) :
    Yields (primary ⟨s, t :: ts⟩) e c := by
  obtain ⟨h₁, step⟩ := Cursor.advance_cons s t ts
  obtain ⟨h₂, whole⟩ := whole
  have none : literal? t = none := by simp [literal?, h]
  refine ⟨Nat.lt_of_le_of_lt (Nat.le_of_lt_succ h₂) h₁, ?_⟩
  rw [primary, step]
  simp only [bind, Except.bind, none, h, whole]
  rfl

/-- A text literal in front of what ends an expression. -/
theorem expression_literal {min : Nat} {s : Span} {t u : Token} {ts : List Token}
    {parts : List Part} (ht : t.kind = .str parts) (hu : endsExpression u) :
    Yields (expression min ⟨s, t :: u :: ts⟩) (.str t.span parts) ⟨t.span, u :: ts⟩ := by
  have operand : endsOperand u := by
    simp only [endsExpression, Bool.and_eq_true] at hu
    exact hu.1.1
  refine expression_of_unary (unary_of_primary ?_ (primary_of_literal ?_)
    (suffixes_of_ends operand)) (operators_of_ends hu)
  · simp [prefixOperator?, isReferenceMark, Token.isPunct, ht]
  · simp [literal?, ht]

/-- A prefix operator and its operand. -/
theorem unary_of_prefixed {s : Span} {t : Token} {ts : List Token} {op : UnaryOp} {e : Expr}
    {c : Cursor} (h : prefixOperator? t = some op)
    (operand : Yields (expression prefixBinding ⟨t.span, ts⟩) e c) :
    Yields (unary ⟨s, t :: ts⟩) (.unary (t.span.through e.span) op e) c := by
  obtain ⟨h₁, step⟩ := Cursor.advance_cons s t ts
  obtain ⟨h₂, operand⟩ := operand
  refine ⟨Nat.lt_trans h₂ h₁, ?_⟩
  rw [unary, step]
  simp only [bind, Except.bind, h, operand]
  rfl

/-- A binary operator that binds tightly enough, and its right operand. -/
theorem operators_of_binary {min : Nat} {lhs rhs whole : Expr} {s : Span} {t : Token}
    {ts : List Token} {o : Operator} {c₁ c₂ : Cursor} (question : t.kind ≠ .punct .question)
    (h : operator? t = some o) (tight : min ≤ o.leftBinding)
    (right : Yields (expression o.rightBinding ⟨t.span, ts⟩) rhs c₁)
    (more : Yields (operators min (.binary (lhs.span.through rhs.span) o.op lhs rhs) c₁) whole c₂) :
    Yields (operators min lhs ⟨s, t :: ts⟩) whole c₂ := by
  obtain ⟨h₁, right⟩ := right
  obtain ⟨h₂, more⟩ := more
  have here : (Cursor.mk t.span ts).size < (Cursor.mk s (t :: ts)).size := Nat.lt_succ_self _
  refine ⟨Nat.lt_succ_of_lt (Nat.lt_trans (Nat.lt_of_le_of_lt (Nat.le_of_lt_succ h₂) h₁) here), ?_⟩
  rw [operators, Cursor.punct?_eq_none question]
  simp only [binary?, h, Nat.not_lt.2 tight, if_false, bind, Except.bind, right, more]
  rfl

/-! ### Names -/

/-- A word that stands for a literal, in front of anything but a call. -/
theorem named_of_literal {n : String} {t u : Token} {s : Span} {ts : List Token} {e : Expr}
    (hu : u.kind ≠ .punct .openParen)
    (h : wordLiteral? (String.ofList (lower n.toList)) false t.span = some e) :
    Yields (named n t ⟨s, u :: ts⟩) e ⟨s, u :: ts⟩ := by
  refine ⟨Nat.lt_succ_self _, ?_⟩
  have noCall : (Cursor.mk s (u :: ts)).atPunct .openParen = false := by
    simp [Cursor.atPunct_cons, Token.isPunct, hu]
  rw [named]
  simp only [noCall, h]
  rfl

/-- A name that stands for a constant. -/
theorem named_of_constant {n : String} {t u : Token} {s : Span} {ts : List Token}
    (hu : u.kind ≠ .punct .openParen ∧ u.kind ≠ .punct .doubleColon)
    (plain : ∀ sp, wordLiteral? (String.ofList (lower n.toList)) false sp = none)
    (new : String.ofList (lower n.toList) ≠ "new")
    (supported : isUnsupportedWord (String.ofList (lower n.toList)) = false) :
    Yields (named n t ⟨s, u :: ts⟩) (.const t.span n) ⟨s, u :: ts⟩ := by
  refine ⟨Nat.lt_succ_self _, ?_⟩
  have noCall : (Cursor.mk s (u :: ts)).atPunct .openParen = false := by
    simp [Cursor.atPunct_cons, Token.isPunct, hu.1]
  rw [named]
  simp only [noCall, plain, beq_eq_false_iff_ne.2 new, supported, Bool.false_eq_true, if_false,
    Cursor.punct?_eq_none hu.1, Cursor.punct?_eq_none hu.2]
  rfl

/-! ### Calls -/

/-- A name that may be called: no literal and no word of the language. -/
def isPlainName (n : String) : Bool :=
  let word := String.ofList (lower n.toList)
  (wordLiteral? word true default).isNone && word != "new" && !isUnsupportedWord word &&
    word != "array"

/-- A call by a name that is no keyword. -/
theorem named_of_call {n : String} {t paren : Token} {s : Span} {ts : List Token}
    {args : List Expr} {stop : Span} {c : Cursor} (plain : isPlainName n)
    (hp : paren.kind = .punct .openParen)
    (read : Yields (arguments ⟨paren.span, ts⟩) (args, stop) c) :
    Yields (named n t ⟨s, paren :: ts⟩) (.call (t.span.through stop) n args) c := by
  obtain ⟨h₁, open'⟩ := Cursor.punct?_of_kind (s := s) (r := ts) hp
  obtain ⟨h₂, read⟩ := read
  simp only [isPlainName, Bool.and_eq_true, Option.isNone_iff_eq_none, bne_iff_ne, ne_eq,
    Bool.not_eq_true'] at plain
  obtain ⟨⟨⟨literal, new⟩, supported⟩, array⟩ := plain
  have at' : (Cursor.mk s (paren :: ts)).atPunct .openParen = true := by
    simp [Cursor.atPunct_cons, Token.isPunct, hp]
  have literal : ∀ s, wordLiteral? (String.ofList (lower n.toList)) true s = none := by
    intro s
    revert literal
    unfold wordLiteral?
    split <;> simp
  refine ⟨Nat.lt_succ_of_lt (Nat.lt_trans h₂ h₁), ?_⟩
  rw [named]
  simp only [at', literal, beq_eq_false_iff_ne.2 new, supported, Bool.false_eq_true, if_false,
    open', beq_eq_false_iff_ne.2 array, bind, Except.bind, read]
  rfl

/-- The last argument of a call. -/
theorem arguments_of_last {s : Span} {t : Token} {ts us : List Token} {e : Expr} {sp : Span}
    {close : Token} (begins : t.kind ≠ .punct .closeParen ∧ t.kind ≠ .punct .ellipsis ∧
      t.kind ≠ .punct .ampersand)
    (first : Yields (expression 0 ⟨s, t :: ts⟩) e ⟨sp, close :: us⟩)
    (hc : close.kind = .punct .closeParen) :
    Yields (arguments ⟨s, t :: ts⟩) ([e], close.span) ⟨close.span, us⟩ := by
  obtain ⟨_, step⟩ := Cursor.advance_cons s t ts
  obtain ⟨h₁, first⟩ := first
  obtain ⟨h₂, stop⟩ := Cursor.punct?_of_kind (s := sp) (r := us) hc
  have noComma : close.kind ≠ .punct .comma := by simp [hc]
  refine ⟨Nat.lt_trans h₂ h₁, ?_⟩
  rw [arguments, Cursor.punct?_eq_none begins.1, step]
  simp only [bind, Except.bind, Token.isPunct, beq_eq_false_iff_ne.2 begins.2.1,
    beq_eq_false_iff_ne.2 begins.2.2, Bool.or_self, Bool.false_eq_true, if_false, first,
    Cursor.punct?_eq_none noComma, stop]
  rfl

/-- An argument, a comma, and the others. -/
theorem arguments_of_comma {s : Span} {t : Token} {ts us : List Token} {e : Expr} {sp : Span}
    {comma : Token} {es : List Expr} {stop : Span} {c : Cursor}
    (begins : t.kind ≠ .punct .closeParen ∧ t.kind ≠ .punct .ellipsis ∧
      t.kind ≠ .punct .ampersand)
    (first : Yields (expression 0 ⟨s, t :: ts⟩) e ⟨sp, comma :: us⟩)
    (hc : comma.kind = .punct .comma)
    (more : Yields (arguments ⟨comma.span, us⟩) (es, stop) c) :
    Yields (arguments ⟨s, t :: ts⟩) (e :: es, stop) c := by
  obtain ⟨_, step⟩ := Cursor.advance_cons s t ts
  obtain ⟨h₁, first⟩ := first
  obtain ⟨h₂, sep⟩ := Cursor.punct?_of_kind (s := sp) (r := us) hc
  obtain ⟨h₃, more⟩ := more
  refine ⟨Nat.lt_trans h₃ (Nat.lt_trans h₂ h₁), ?_⟩
  rw [arguments, Cursor.punct?_eq_none begins.1, step]
  simp only [bind, Except.bind, Token.isPunct, beq_eq_false_iff_ne.2 begins.2.1,
    beq_eq_false_iff_ne.2 begins.2.2, Bool.or_self, Bool.false_eq_true, if_false, first, sep,
    more]
  rfl

/-! ### Statements -/

/-- A name that begins no statement of its own. -/
def isExpressionWord (n : String) : Bool :=
  let word := String.ofList (lower n.toList)
  word != "if" && (includeKind? word).isNone &&
    !(["const", "unset", "global", "return", "exit", "die"].contains word) &&
    !isUnsupportedStatement word

/-- A word that begins an expression begins no other statement. -/
theorem wordStatement?_eq_none {n : String} (h : isExpressionWord n) (t : Token) (c : Cursor) :
    wordStatement? (String.ofList (lower n.toList)) t c = none := by
  simp only [isExpressionWord, Bool.and_eq_true, bne_iff_ne, ne_eq, Option.isNone_iff_eq_none,
    Bool.not_eq_true', List.contains_eq_mem, List.mem_cons, decide_eq_false_iff_not,
    List.not_mem_nil, or_false, not_or] at h
  obtain ⟨⟨⟨_, include'⟩, const, unset, global, ret, exit, die⟩, supported⟩ := h
  simp [wordStatement?, include', const, unset, global, ret, exit, die, supported]

/-- An expression and a semicolon are a statement. -/
theorem expressionStatement_of_expression {s : Span} {t semi : Token} {ts us : List Token}
    {e : Expr} {sp : Span} (read : Yields (expression 0 ⟨s, t :: ts⟩) e ⟨sp, semi :: us⟩)
    (hs : semi.kind = .punct .semicolon) :
    Yields (expressionStatement ⟨s, t :: ts⟩) (.expr (t.span.through semi.span) e)
      ⟨semi.span, us⟩ := by
  obtain ⟨_, step⟩ := Cursor.advance_cons s t ts
  obtain ⟨h₁, read⟩ := read
  obtain ⟨h₂, stop⟩ := Cursor.terminator_of_semicolon (s := sp) (r := us) e.span hs
  refine ⟨Nat.lt_of_le_of_lt (Nat.le_of_lt_succ h₂) h₁, ?_⟩
  rw [expressionStatement, step]
  simp only [bind, Except.bind, read, stop]
  rfl

/-- What begins with a word of an expression is read as one. -/
theorem structured_of_expression {s : Span} {t : Token} {ts : List Token} {n : String}
    {stmt : Stmt} {c : Cursor} (h : t.kind = .ident n) (word : isExpressionWord n)
    (read : Yields (expressionStatement ⟨s, t :: ts⟩) stmt c) :
    Yields (structured ⟨s, t :: ts⟩) stmt c := by
  obtain ⟨_, step⟩ := Cursor.advance_cons s t ts
  obtain ⟨h₁, read⟩ := read
  have noIf : (String.ofList (lower n.toList) == "if") = false := by
    simp only [isExpressionWord, Bool.and_eq_true, bne_iff_ne, ne_eq] at word
    exact beq_eq_false_iff_ne.2 word.1.1.1
  refine ⟨h₁, ?_⟩
  rw [structured, step]
  simp only [bind, Except.bind, h, noIf, Bool.false_eq_true, if_false,
    wordStatement?_eq_none word, read]

/-- The value of a plain assignment is any expression. -/
theorem structured_of_assignment {s sp : Span} {t sign semi : Token} {ts us : List Token}
    {n : String} {e : Expr} (ht : t.kind = .var n) (hsign : sign.kind = .punct .assign)
    (noReference : (Cursor.mk sign.span ts).atPunct .ampersand = false)
    (read : Yields (expression 0 ⟨sign.span, ts⟩) e ⟨sp, semi :: us⟩)
    (hs : semi.kind = .punct .semicolon) :
    Yields (structured ⟨s, t :: sign :: ts⟩)
      (.assign (t.span.through semi.span) .assign ⟨n, [], t.span.through t.span⟩ e)
      ⟨semi.span, us⟩ := by
  obtain ⟨h₀, step⟩ := Cursor.advance_cons s t (sign :: ts)
  obtain ⟨h₁, signStep⟩ := Cursor.advance_cons t.span sign ts
  obtain ⟨h₂, read⟩ := read
  obtain ⟨h₃, stop⟩ := Cursor.terminator_of_semicolon (s := sp) (r := us) e.span hs
  have noIndex : indices t.span ⟨t.span, sign :: ts⟩ =
      .ok ((Cursor.mk t.span (sign :: ts)).stay ([], t.span)) := by
    rw [indices, Cursor.punct?_eq_none (by simp [hsign])]
  have left : Yields (target ⟨s, t :: sign :: ts⟩) ⟨n, [], t.span.through t.span⟩
      ⟨t.span, sign :: ts⟩ := by
    refine ⟨h₀, ?_⟩
    rw [target, step]
    simp only [bind, Except.bind, ht, noIndex]
    rfl
  obtain ⟨h₄, left⟩ := left
  have op : assignOp? sign = some .assign := by simp [assignOp?, hsign]
  have span : (t.span.through t.span).through semi.span = t.span.through semi.span := by
    simp only [Span.through]
    congr 1
    omega
  have bound : (Cursor.mk semi.span us).size < (Cursor.mk s (t :: sign :: ts)).size := by
    have := Nat.lt_of_le_of_lt (Nat.le_of_lt_succ h₃) h₂
    simp only [Cursor.size, List.length_cons] at *
    omega
  refine ⟨bound, ?_⟩
  rw [structured, step]
  simp only [bind, Except.bind, ht, assignment?, left, signStep, op, noReference,
    Bool.false_eq_true, if_false, read, stop, Read.map, Read.value_andThen, Read.value_andMaybe,
    span]
  rfl

/-- What begins with a word or a variable is read by its grammar. -/
theorem statement_of_structured {s : Span} {t : Token} {ts : List Token} {stmt : Stmt}
    {c : Cursor} (h : (∃ n, t.kind = .ident n) ∨ ∃ n, t.kind = .var n)
    (read : Yields (structured ⟨s, t :: ts⟩) stmt c) :
    Yields (statement ⟨s, t :: ts⟩) (some stmt) c := by
  obtain ⟨_, step⟩ := Cursor.advance_cons s t ts
  obtain ⟨h₁, read⟩ := read
  refine ⟨h₁, ?_⟩
  rw [statement, step]
  rcases h with ⟨n, h⟩ | ⟨n, h⟩ <;> simp only [bind, Except.bind, h, read] <;> rfl

/-- A tag is no statement. -/
theorem statement_of_openTag (s : Span) {t : Token} (ts : List Token) (h : t.kind = .openTag) :
    Yields (statement ⟨s, t :: ts⟩) none ⟨t.span, ts⟩ := by
  obtain ⟨shorter, step⟩ := Cursor.advance_cons s t ts
  refine ⟨shorter, ?_⟩
  rw [statement, step]
  simp only [bind, Except.bind, h]
  rfl

/-- A call of a function as a statement. `t` is the name of the function and `paren` the parenthesis
behind it. -/
theorem statement_of_call {s sp : Span} {t paren semi : Token} {ts us : List Token} {n : String}
    {args : List Expr} {stop : Span} (ht : t.kind = .ident n) (plain : isPlainName n)
    (word : isExpressionWord n) (hp : paren.kind = .punct .openParen)
    (read : Yields (arguments ⟨paren.span, ts⟩) (args, stop) ⟨sp, semi :: us⟩)
    (hs : semi.kind = .punct .semicolon) :
    Yields (statement ⟨s, t :: paren :: ts⟩)
      (some (.expr (t.span.through semi.span) (.call (t.span.through stop) n args)))
      ⟨semi.span, us⟩ := by
  have ends : endsExpression semi := by
    simp [endsExpression, endsOperand, operator?, punctOperator?, Token.isPunct, hs]
  have noPrefix : prefixOperator? t = none ∧ isReferenceMark t = false ∧
      t.isPunct .openParen = false := by
    simp [prefixOperator?, isReferenceMark, Token.isPunct, ht]
  have operand : endsOperand semi := by simp [endsOperand, hs]
  have call := primary_of_ident (s := s) ht
    (named_of_call (t := t) (s := t.span) plain hp read)
  have whole := expression_of_unary (m := 0)
    (unary_of_primary noPrefix call (suffixes_of_ends operand)) (operators_of_ends ends)
  exact statement_of_structured (.inl ⟨n, ht⟩)
    (structured_of_expression ht word (expressionStatement_of_expression whole hs))

/-- A definition of a constant, token by token. -/
theorem statement_of_define {s : Span} {t₁ t₂ t₃ t₄ t₅ t₆ t₇ : Token} {rest : List Token}
    {n v : String} (h₁ : t₁.kind = .ident "define") (h₂ : t₂.kind = .punct .openParen)
    (h₃ : t₃.kind = .str [.text n]) (h₄ : t₄.kind = .punct .comma)
    (h₅ : t₅.kind = .str [.text v]) (h₆ : t₆.kind = .punct .closeParen)
    (h₇ : t₇.kind = .punct .semicolon) :
    Yields (statement ⟨s, t₁ :: t₂ :: t₃ :: t₄ :: t₅ :: t₆ :: t₇ :: rest⟩)
      (some (.expr (t₁.span.through t₇.span) (.call (t₁.span.through t₆.span) "define"
        [.str t₃.span [.text n], .str t₅.span [.text v]]))) ⟨t₇.span, rest⟩ := by
  have comma : endsExpression t₄ := by
    simp [endsExpression, endsOperand, operator?, punctOperator?, Token.isPunct, h₄]
  have close : endsExpression t₆ := by
    simp [endsExpression, endsOperand, operator?, punctOperator?, Token.isPunct, h₆]
  exact statement_of_call h₁ (by decide) (by decide) h₂
    (arguments_of_comma (by simp [h₃]) (expression_literal h₃ comma) h₄
      (arguments_of_last (by simp [h₅]) (expression_literal h₅ close) h₆)) h₇

/-- An assignment of a text, token by token. -/
theorem statement_of_assign {s : Span} {t₁ t₂ t₃ t₄ : Token} {rest : List Token}
    {n v : String} (h₁ : t₁.kind = .var n) (h₂ : t₂.kind = .punct .assign)
    (h₃ : t₃.kind = .str [.text v]) (h₄ : t₄.kind = .punct .semicolon) :
    Yields (statement ⟨s, t₁ :: t₂ :: t₃ :: t₄ :: rest⟩)
      (some (.assign (t₁.span.through t₄.span) .assign ⟨n, [], t₁.span.through t₁.span⟩
        (.str t₃.span [.text v]))) ⟨t₄.span, rest⟩ := by
  have ends : endsExpression t₄ := by
    simp [endsExpression, endsOperand, operator?, punctOperator?, Token.isPunct, h₄]
  exact statement_of_structured (.inr ⟨n, h₁⟩)
    (structured_of_assignment h₁ h₂ (by simp [Cursor.atPunct_cons, Token.isPunct, h₃])
      (expression_literal h₃ ends) h₄)

/-! ### Conditionals -/

/-- The brace that ends a block. -/
theorem block_of_close {s : Span} {t : Token} {ts : List Token} (h : t.kind = .punct .closeBrace) :
    Yields (block ⟨s, t :: ts⟩) ([], t.span) ⟨t.span, ts⟩ := by
  obtain ⟨shorter, step⟩ := Cursor.punct?_of_kind (s := s) (r := ts) h
  refine ⟨shorter, ?_⟩
  rw [block, step]
  rfl

/-- A statement of a block and the rest of it. -/
theorem block_of_statement {s : Span} {t : Token} {ts : List Token} {stmt : Option Stmt}
    {body : List Stmt} {stop : Span} {c₁ c₂ : Cursor} (h : t.kind ≠ .punct .closeBrace)
    (first : Yields (statement ⟨s, t :: ts⟩) stmt c₁) (more : Yields (block c₁) (body, stop) c₂) :
    Yields (block ⟨s, t :: ts⟩) (stmt.toList ++ body, stop) c₂ := by
  obtain ⟨h₁, first⟩ := first
  obtain ⟨h₂, more⟩ := more
  refine ⟨Nat.lt_trans h₂ h₁, ?_⟩
  rw [block, Cursor.punct?_eq_none h]
  simp only [bind, Except.bind, first, more]
  rfl

/-- A condition in parentheses and a block. -/
theorem branch_of_block {s sp : Span} {paren close brace : Token} {ts us : List Token} {e : Expr}
    {ss : List Stmt} {stop : Span} {c : Cursor} (hp : paren.kind = .punct .openParen)
    (condition : Yields (expression 0 ⟨paren.span, ts⟩) e ⟨sp, close :: brace :: us⟩)
    (hc : close.kind = .punct .closeParen) (hb : brace.kind = .punct .openBrace)
    (run : Yields (block ⟨brace.span, us⟩) (ss, stop) c) :
    Yields (branch ⟨s, paren :: ts⟩) (.mk e ss, stop) c := by
  obtain ⟨h₁, open'⟩ := Cursor.expect_of_kind (s := s) (r := ts) hp
  obtain ⟨h₂, condition⟩ := condition
  obtain ⟨h₃, close'⟩ := Cursor.expect_of_kind (s := sp) (r := brace :: us) hc
  obtain ⟨h₄, brace'⟩ := Cursor.punct?_of_kind (s := close.span) (r := us) hb
  obtain ⟨h₅, run⟩ := run
  have noColon : (Cursor.mk close.span (brace :: us)).atPunct .colon = false := by
    simp [Cursor.atPunct_cons, Token.isPunct, hb]
  refine ⟨Nat.lt_trans h₅ (Nat.lt_trans h₄ (Nat.lt_trans h₃ (Nat.lt_trans h₂ h₁))), ?_⟩
  rw [branch, open']
  simp only [bind, Except.bind, condition, close', noColon, Bool.false_eq_true, if_false, body,
    brace', run]
  rfl

/-- No alternative follows. -/
theorem alternatives_of_none {stop s : Span} {t : Token} {ts : List Token}
    (h : t.keyword? ≠ some "elseif" ∧ t.keyword? ≠ some "else") :
    Yields (alternatives stop ⟨s, t :: ts⟩) ⟨[], none, stop⟩ ⟨s, t :: ts⟩ := by
  refine ⟨Nat.lt_succ_self _, ?_⟩
  rw [alternatives, Cursor.keyword?_eq_none h.1, Cursor.keyword?_eq_none h.2]
  rfl

/-- A conditional with its first branch and the alternatives. -/
theorem structured_of_branch {s : Span} {t : Token} {ts : List Token} {b : Branch} {stop : Span}
    {more : Alternatives} {c₁ c₂ : Cursor} (h : t.kind = .ident "if")
    (first : Yields (branch ⟨t.span, ts⟩) (b, stop) c₁)
    (others : Yields (alternatives stop c₁) more c₂) :
    Yields (structured ⟨s, t :: ts⟩)
      (.conditional (t.span.through more.stop) (b :: more.branches) more.otherwise) c₂ := by
  obtain ⟨h₁, step⟩ := Cursor.advance_cons s t ts
  obtain ⟨h₂, first⟩ := first
  obtain ⟨h₃, others⟩ := others
  have word : (String.ofList (lower "if".toList) == "if") = true := by decide
  refine ⟨Nat.lt_trans (Nat.lt_of_le_of_lt (Nat.le_of_lt_succ h₃) h₂) h₁, ?_⟩
  rw [structured, step]
  simp only [bind, Except.bind, h, word, if_true, first, others]
  rfl

/-! ### Loading a file -/

/-- A statement that loads a file. -/
theorem structured_of_load {s sp : Span} {t semi : Token} {ts us : List Token} {n : String}
    {k : IncludeKind} {e : Expr} (h : t.kind = .ident n)
    (hk : includeKind? (String.ofList (lower n.toList)) = some k)
    (noIf : String.ofList (lower n.toList) ≠ "if")
    (read : Yields (expression 0 ⟨t.span, ts⟩) e ⟨sp, semi :: us⟩)
    (hs : semi.kind = .punct .semicolon) :
    Yields (structured ⟨s, t :: ts⟩) (.load (t.span.through semi.span) k e)
      ⟨semi.span, us⟩ := by
  obtain ⟨h₁, step⟩ := Cursor.advance_cons s t ts
  obtain ⟨h₂, read⟩ := read
  obtain ⟨h₃, stop⟩ := Cursor.terminator_of_semicolon (s := sp) (r := us) e.span hs
  refine ⟨Nat.lt_trans (Nat.lt_of_le_of_lt (Nat.le_of_lt_succ h₃) h₂) h₁, ?_⟩
  rw [structured, step]
  simp only [bind, Except.bind, h, beq_eq_false_iff_ne.2 noIf, Bool.false_eq_true, if_false,
    wordStatement?, hk, loadStatement, read, stop]
  rfl

/-! ### Sequences of statements -/

theorem statements_of_nil (s : Span) : statements ⟨s, []⟩ = .ok [] := by
  rw [statements]
  rfl

/-- All statements are the first one and those behind it. -/
theorem statements_of_statement {c₁ c₂ : Cursor} {stmt : Option Stmt}
    (read : Yields (statement c₁) stmt c₂) :
    statements c₁ = (statements c₂).map (stmt.toList ++ ·) := by
  obtain ⟨h, read⟩ := read
  have some : c₁.rest.isEmpty = false := by
    cases hc : c₁.rest with
    | nil => simp [Cursor.size, hc] at h
    | cons => rfl
  rw [statements]
  simp only [some, Bool.false_eq_true, if_false, bind, Except.bind, read]
  cases statements c₂ <;> rfl

end ConfigScript.Script
