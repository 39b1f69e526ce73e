import ConfigScript.Proofs.Parsing.Yields

/-!
# The rules of expressions

What the parser of expressions makes of tokens, one rule for each way in which an expression may go on.
A rule says nothing about where its premises come from, so the same tokens may be read once more in front
of others. The rules that written statements use stand with these (`Proofs.Parsing.Yields`).
-/

namespace ConfigScript.Script

/-! ### The token ahead -/

namespace Cursor

variable {c d : Cursor} {p : Punct}

/-- Punctuation is not found just where it is not ahead. -/
theorem punct?_eq_none_iff : c.punct? p = none ↔ c.atPunct p = false := by
  obtain ⟨s, _ | ⟨t, ts⟩⟩ := c
  · exact ⟨fun _ ↦ rfl, fun _ ↦ rfl⟩
  · unfold punct? accept? atPunct current?
    cases h : t.isPunct p <;> simp [h]

theorem atPunct_of_head? (heads : d.rest.head? = c.rest.head?) (p : Punct) :
    d.atPunct p = c.atPunct p := by
  rw [atPunct, atPunct, current?, current?, heads]

end Cursor

/-- No binary operator is found just where the token ahead is none or binds less tightly than asked for.
-/
theorem binary?_eq_none_iff {min : Nat} {c : Cursor} :
    binary? min c = none ↔ ∀ t ∈ c.rest.head?, ∀ o, operator? t = some o → o.leftBinding < min := by
  obtain ⟨s, _ | ⟨t, ts⟩⟩ := c
  · exact ⟨fun _ ↦ nofun, fun _ ↦ rfl⟩
  · simp only [binary?, List.head?_cons, Option.mem_some_iff, forall_eq']
    cases operator? t with
    | none => simp
    | some o =>
      by_cases loose : o.leftBinding < min <;> simp [loose]

variable {s sp : Span} {t u : Token} {ts us : List Token} {a b : Expr} {c d next : Cursor}

/-! ### Operands -/

/-- Nothing follows an operand in front of a token that ends operands. -/
theorem suffixes_stays (h : ∀ t ∈ c.rest.head?, endsOperand t) : Yields (suffixes a c) a c := by
  obtain ⟨s, _ | ⟨t, ts⟩⟩ := c
  · refine ⟨Nat.lt_succ_self _, ?_⟩
    rw [suffixes]
    rfl
  · exact suffixes_of_ends (h t rfl)

/-- Nothing follows an expression in front of no operator that binds as tightly as asked for. -/
theorem operators_stays {min : Nat}
    (question : c.atPunct .question = true → ternaryBinding < min) (operator : binary? min c = none) :
    Yields (operators min a c) a c := by
  refine ⟨Nat.lt_succ_self _, ?_⟩
  rw [operators]
  split
  · rename_i read
    have ahead : c.atPunct .question = true := by
      rw [← Bool.not_eq_false, ← Cursor.punct?_eq_none_iff, read]
      exact Option.some_ne_none _
    rw [if_pos (question ahead)]
    rfl
  · rw [operator]
    rfl

/-- A cast is found by its three tokens. -/
theorem cast?_of_kinds {w : Token} {kind : CastKind} (ho : t.kind = .punct .openParen)
    (hw : castKind? w = some kind) (hu : u.kind = .punct .closeParen) :
    ∃ h, cast? ⟨s, t :: w :: u :: ts⟩ = some ⟨kind, ⟨u.span, ts⟩, h⟩ := by
  refine ⟨by simp only [Cursor.size, List.length_cons]; omega, ?_⟩
  simp [cast?, Token.isPunct, ho, hu, hw]

/-- A cast in front of an operand. -/
theorem unary_of_cast {w : Token} {kind : CastKind} (ho : t.kind = .punct .openParen)
    (hw : castKind? w = some kind) (hu : u.kind = .punct .closeParen)
    (operand : Yields (expression prefixBinding ⟨u.span, ts⟩) a c) :
    Yields (unary ⟨s, t :: w :: u :: ts⟩) (.cast (t.span.through a.span) kind a) c := by
  obtain ⟨_, step⟩ := Cursor.advance_cons s t (w :: u :: ts)
  obtain ⟨h₁, cast⟩ := @cast?_of_kinds s t u ts w kind ho hw hu
  obtain ⟨h₂, operand⟩ := operand
  have plain : prefixOperator? t = none ∧ isReferenceMark t = false := by
    simp [prefixOperator?, isReferenceMark, Token.isPunct, ho]
  refine ⟨Nat.lt_trans h₂ h₁, ?_⟩
  rw [unary, step]
  simp only [bind, Except.bind, plain.1, plain.2, cast, Bool.false_eq_true, if_false, operand]
  rfl

/-- A group in parentheses: the expression inside, with the span of the group. -/
theorem primary_of_group (ho : t.kind = .punct .openParen) (hu : u.kind = .punct .closeParen)
    (inner : Yields (expression 0 ⟨t.span, ts⟩) a ⟨sp, u :: us⟩) :
    Yields (primary ⟨s, t :: ts⟩) (a.withSpan (t.span.through u.span)) ⟨u.span, us⟩ := by
  obtain ⟨h₁, step⟩ := Cursor.advance_cons s t ts
  obtain ⟨h₂, inner⟩ := inner
  obtain ⟨h₃, close⟩ := Cursor.expect_of_kind (s := sp) (r := us) hu
  have none : literal? t = none := by simp [literal?, ho]
  refine ⟨Nat.lt_trans h₃ (Nat.lt_trans h₂ h₁), ?_⟩
  rw [primary, step]
  simp only [bind, Except.bind, none, ho, inner, close]
  rfl

/-- An array in square brackets. -/
theorem primary_of_items {is : List Item} {stop : Span} (ho : t.kind = .punct .openBracket)
    (inner : Yields (items .closeBracket ⟨t.span, ts⟩) (is, stop) c) :
    Yields (primary ⟨s, t :: ts⟩) (.array (t.span.through stop) is) c := by
  obtain ⟨h₁, step⟩ := Cursor.advance_cons s t ts
  obtain ⟨h₂, inner⟩ := inner
  have none : literal? t = none := by simp [literal?, ho]
  refine ⟨Nat.lt_trans h₂ h₁, ?_⟩
  rw [primary, step]
  simp only [bind, Except.bind, none, ho, inner]
  rfl

/-! ### Operators -/

/-- `?:` and what follows it. -/
theorem operators_of_elvis {min : Nat} {lhs : Expr} (ht : t.kind = .punct .question)
    (hu : u.kind = .punct .colon) (loose : min ≤ ternaryBinding)
    (other : Yields (expression (ternaryBinding + 1) ⟨u.span, ts⟩) a c)
    (more : Yields (operators min (.elvis (lhs.span.through a.span) lhs a) c) b d) :
    Yields (operators min lhs ⟨s, t :: u :: ts⟩) b d := by
  obtain ⟨h₁, question⟩ := Cursor.punct?_of_kind (s := s) (r := u :: ts) ht
  obtain ⟨h₂, colon⟩ := Cursor.punct?_of_kind (s := t.span) (r := ts) hu
  obtain ⟨h₃, other⟩ := other
  obtain ⟨h₄, more⟩ := more
  refine ⟨Nat.lt_succ_of_lt (Nat.lt_trans (Nat.lt_of_le_of_lt (Nat.le_of_lt_succ h₄) h₃)
    (Nat.lt_trans h₂ h₁)), ?_⟩
  rw [operators, question]
  simp only [Nat.not_lt.2 loose, if_false, colon, bind, Except.bind, other, more]
  rfl

/-- A conditional and what follows it. -/
theorem operators_of_ternary {min : Nat} {lhs chosen : Expr} (ht : t.kind = .punct .question)
    (hu : u.kind = .punct .colon) (loose : min ≤ ternaryBinding)
    (some : (Cursor.mk t.span ts).atPunct .colon = false)
    (middle : Yields (expression 0 ⟨t.span, ts⟩) chosen ⟨sp, u :: us⟩)
    (other : Yields (expression (ternaryBinding + 1) ⟨u.span, us⟩) a c)
    (more : Yields (operators min (.ternary (lhs.span.through a.span) lhs chosen a) c) b d) :
    Yields (operators min lhs ⟨s, t :: ts⟩) b d := by
  obtain ⟨h₁, question⟩ := Cursor.punct?_of_kind (s := s) (r := ts) ht
  obtain ⟨h₂, middle⟩ := middle
  obtain ⟨h₃, colon⟩ := Cursor.expect_of_kind (s := sp) (r := us) hu
  obtain ⟨h₄, other⟩ := other
  obtain ⟨h₅, more⟩ := more
  refine ⟨Nat.lt_succ_of_lt (Nat.lt_trans (Nat.lt_of_le_of_lt (Nat.le_of_lt_succ h₅) h₄)
    (Nat.lt_trans h₃ (Nat.lt_trans h₂ h₁))), ?_⟩
  rw [operators, question]
  simp only [Nat.not_lt.2 loose, if_false, Cursor.punct?_eq_none_iff.2 some, bind, Except.bind, middle,
    colon, other, more]
  rfl

/-! ### Names -/

/-- A word that is a literal. -/
theorem named_of_word {n : String} (h : wordLiteral? (String.ofList (lower n.toList))
    (c.atPunct .openParen) t.span = some a) : Yields (named n t c) a c := by
  refine ⟨Nat.lt_succ_self _, ?_⟩
  rw [named]
  simp only [h]
  rfl

/-- `new` and what it creates. -/
theorem named_of_creation {n : String} (new : String.ofList (lower n.toList) = "new")
    (read : Yields (creation t.span c) a d) : Yields (named n t c) a d := by
  obtain ⟨h, read⟩ := read
  refine ⟨h, ?_⟩
  have literal : ∀ b, wordLiteral? "new" b t.span = none := by rintro (_ | _) <;> rfl
  rw [named, new]
  simp only [literal, read]
  rfl

/-- `new` with a name of a class. -/
theorem creation_of_name {start stop : Span} (name : isMemberName t)
    (call : Yields (callSuffix t.span ⟨t.span, ts⟩) stop c) :
    Yields (creation start ⟨s, t :: ts⟩) (.opaqueExpr (start.through stop)) c := by
  obtain ⟨h₁, step⟩ := Cursor.advance_cons s t ts
  obtain ⟨h₂, call⟩ := call
  refine ⟨Nat.lt_succ_of_lt (Nat.lt_of_le_of_lt (Nat.le_of_lt_succ h₂) h₁), ?_⟩
  rw [creation, step]
  simp only [bind, Except.bind, name, if_true, call]
  rfl

/-- A member by its name. -/
theorem member_of_name {start stop : Span} (name : isMemberName t)
    (call : Yields (callSuffix t.span ⟨t.span, ts⟩) stop c) :
    Yields (member start ⟨s, t :: ts⟩) (.opaqueExpr (start.through stop)) c := by
  obtain ⟨h₁, step⟩ := Cursor.advance_cons s t ts
  obtain ⟨h₂, call⟩ := call
  refine ⟨Nat.lt_of_le_of_lt (Nat.le_of_lt_succ h₂) h₁, ?_⟩
  rw [member, step]
  simp only [bind, Except.bind, name, if_true, call]
  rfl

/-- A call with its arguments. -/
theorem callSuffix_of_call {last stop : Span} {es : List Expr} (hp : t.kind = .punct .openParen)
    (read : Yields (arguments ⟨t.span, ts⟩) (es, stop) c) :
    Yields (callSuffix last ⟨s, t :: ts⟩) stop c := by
  obtain ⟨h₁, open'⟩ := Cursor.punct?_of_kind (s := s) (r := ts) hp
  obtain ⟨h₂, read⟩ := read
  refine ⟨Nat.lt_succ_of_lt (Nat.lt_trans h₂ h₁), ?_⟩
  rw [callSuffix, open']
  simp only [bind, Except.bind, read]
  rfl

/-- No call behind a name. -/
theorem callSuffix_stays {last : Span} (none : c.atPunct .openParen = false) :
    Yields (callSuffix last c) last c := by
  refine ⟨Nat.lt_succ_self _, ?_⟩
  rw [callSuffix, Cursor.punct?_eq_none_iff.2 none]
  rfl

/-- A word that is no literal in front of what is ahead, and begins nothing of its own. -/
structure Names (n : String) (t : Token) (c : Cursor) : Prop where
  literal : wordLiteral? (String.ofList (lower n.toList)) (c.atPunct .openParen) t.span = none
  new : String.ofList (lower n.toList) ≠ "new"
  supported : isUnsupportedWord (String.ofList (lower n.toList)) = false

theorem Names.of_head? {n : String} (h : Names n t c) (heads : d.rest.head? = c.rest.head?) :
    Names n t d := { h with literal := by rw [Cursor.atPunct_of_head? heads, h.literal] }

/-- An array by its keyword. -/
theorem named_of_array {n : String} {is : List Item} {stop : Span} (names : Names n t ⟨s, u :: us⟩)
    (array : String.ofList (lower n.toList) = "array") (hu : u.kind = .punct .openParen)
    (read : Yields (items .closeParen ⟨u.span, us⟩) (is, stop) c) :
    Yields (named n t ⟨s, u :: us⟩) (.array (t.span.through stop) is) c := by
  obtain ⟨h₁, paren⟩ := Cursor.punct?_of_kind (s := s) (r := us) hu
  obtain ⟨h₂, read⟩ := read
  refine ⟨Nat.lt_succ_of_lt (Nat.lt_trans h₂ h₁), ?_⟩
  rw [named]
  simp only [names.literal, beq_eq_false_iff_ne.2 names.new, names.supported, Bool.false_eq_true,
    if_false, paren, beq_iff_eq.2 array, if_true, bind, Except.bind, read]
  rfl

/-- A call by its name. -/
theorem named_of_arguments {n : String} {es : List Expr} {stop : Span} (names : Names n t ⟨s, u :: us⟩)
    (array : String.ofList (lower n.toList) ≠ "array") (hu : u.kind = .punct .openParen)
    (read : Yields (arguments ⟨u.span, us⟩) (es, stop) c) :
    Yields (named n t ⟨s, u :: us⟩) (.call (t.span.through stop) n es) c := by
  obtain ⟨h₁, paren⟩ := Cursor.punct?_of_kind (s := s) (r := us) hu
  obtain ⟨h₂, read⟩ := read
  refine ⟨Nat.lt_succ_of_lt (Nat.lt_trans h₂ h₁), ?_⟩
  rw [named]
  simp only [names.literal, beq_eq_false_iff_ne.2 names.new, names.supported, Bool.false_eq_true,
    if_false, paren, beq_eq_false_iff_ne.2 array, bind, Except.bind, read]
  rfl

/-- A member of a class by the name of that class. -/
theorem named_of_member {n : String} (names : Names n t ⟨s, u :: us⟩)
    (hu : u.kind = .punct .doubleColon) (read : Yields (member t.span ⟨u.span, us⟩) a c) :
    Yields (named n t ⟨s, u :: us⟩) a c := by
  obtain ⟨h₁, colons⟩ := Cursor.punct?_of_kind (s := s) (r := us) hu
  obtain ⟨h₂, read⟩ := read
  have noCall : u.kind ≠ .punct .openParen := by simp [hu]
  refine ⟨Nat.lt_succ_of_lt (Nat.lt_trans h₂ h₁), ?_⟩
  rw [named]
  simp only [names.literal, beq_eq_false_iff_ne.2 names.new, names.supported, Bool.false_eq_true,
    if_false, Cursor.punct?_eq_none noCall, colons, bind, Except.bind, read]
  rfl

/-- A name alone, which is a constant. -/
theorem named_stays {n : String} (names : Names n t c) (call : c.atPunct .openParen = false)
    (owner : c.atPunct .doubleColon = false) : Yields (named n t c) (.const t.span n) c := by
  refine ⟨Nat.lt_succ_self _, ?_⟩
  rw [named]
  simp only [names.literal, beq_eq_false_iff_ne.2 names.new, names.supported, Bool.false_eq_true,
    if_false, Cursor.punct?_eq_none_iff.2 call, Cursor.punct?_eq_none_iff.2 owner]
  rfl

/-! ### Behind operands -/

/-- An index in brackets and what follows it. -/
theorem suffixes_of_index {i : Expr} (ht : t.kind = .punct .openBracket)
    (hu : u.kind = .punct .closeBracket) (some : (Cursor.mk t.span ts).atPunct .closeBracket = false)
    (index : Yields (expression 0 ⟨t.span, ts⟩) i ⟨sp, u :: us⟩)
    (more : Yields (suffixes (.index (a.span.through u.span) a i) ⟨u.span, us⟩) b c) :
    Yields (suffixes a ⟨s, t :: ts⟩) b c := by
  obtain ⟨h₁, step⟩ := Cursor.advance_cons s t ts
  obtain ⟨h₂, index⟩ := index
  obtain ⟨h₃, close⟩ := Cursor.expect_of_kind (s := sp) (r := us) hu
  obtain ⟨h₄, more⟩ := more
  refine ⟨Nat.lt_succ_of_lt (Nat.lt_of_le_of_lt (Nat.le_of_lt_succ h₄)
    (Nat.lt_trans h₃ (Nat.lt_trans h₂ h₁))), ?_⟩
  rw [suffixes, step]
  simp only [ht, some, Bool.false_eq_true, if_false, bind, Except.bind, index, close, more]
  rfl

/-- A member of an object and what follows it. -/
theorem suffixes_of_arrow {stop : Span}
    (ht : t.kind = .punct .arrow ∨ t.kind = .punct .nullsafeArrow) (name : isMemberName u)
    (call : Yields (callSuffix u.span ⟨u.span, us⟩) stop c)
    (more : Yields (suffixes (.opaqueExpr (a.span.through stop)) c) b d) :
    Yields (suffixes a ⟨s, t :: u :: us⟩) b d := by
  obtain ⟨h₁, step⟩ := Cursor.advance_cons s t (u :: us)
  obtain ⟨h₂, step'⟩ := Cursor.advance_cons t.span u us
  obtain ⟨h₃, call⟩ := call
  obtain ⟨h₄, more⟩ := more
  refine ⟨Nat.lt_succ_of_lt (Nat.lt_of_le_of_lt (Nat.le_of_lt_succ h₄)
    (Nat.lt_of_le_of_lt (Nat.le_of_lt_succ h₃) (Nat.lt_trans h₂ h₁))), ?_⟩
  rw [suffixes, step]
  rcases ht with ht | ht <;>
    simp only [ht, step', bind, Except.bind, name, if_true, call, more] <;> rfl

/-- A member of a class and what follows it. -/
theorem suffixes_of_member {m : Expr} (ht : t.kind = .punct .doubleColon)
    (read : Yields (member a.span ⟨t.span, ts⟩) m c) (more : Yields (suffixes m c) b d) :
    Yields (suffixes a ⟨s, t :: ts⟩) b d := by
  obtain ⟨h₁, step⟩ := Cursor.advance_cons s t ts
  obtain ⟨h₂, read⟩ := read
  obtain ⟨h₃, more⟩ := more
  refine ⟨Nat.lt_succ_of_lt (Nat.lt_of_le_of_lt (Nat.le_of_lt_succ h₃) (Nat.lt_trans h₂ h₁)), ?_⟩
  rw [suffixes, step]
  simp only [ht, bind, Except.bind, read, more]
  rfl

/-- A call of what was read and what follows it. -/
theorem suffixes_of_call {es : List Expr} {stop : Span} (ht : t.kind = .punct .openParen)
    (read : Yields (arguments ⟨t.span, ts⟩) (es, stop) c)
    (more : Yields (suffixes (.opaqueExpr (a.span.through stop)) c) b d) :
    Yields (suffixes a ⟨s, t :: ts⟩) b d := by
  obtain ⟨h₁, step⟩ := Cursor.advance_cons s t ts
  obtain ⟨h₂, read⟩ := read
  obtain ⟨h₃, more⟩ := more
  refine ⟨Nat.lt_succ_of_lt (Nat.lt_of_le_of_lt (Nat.le_of_lt_succ h₃) (Nat.lt_trans h₂ h₁)), ?_⟩
  rw [suffixes, step]
  simp only [ht, bind, Except.bind, read, more]
  rfl

/-! ### Arguments and elements -/

/-- No arguments are left. -/
theorem arguments_of_close (ht : t.kind = .punct .closeParen) :
    Yields (arguments ⟨s, t :: ts⟩) ([], t.span) ⟨t.span, ts⟩ := by
  obtain ⟨h, close⟩ := Cursor.punct?_of_kind (s := s) (r := ts) ht
  refine ⟨h, ?_⟩
  rw [arguments, close]
  rfl

/-- No elements are left. -/
theorem items_of_close {p : Punct} (ht : t.kind = .punct p) :
    Yields (items p ⟨s, t :: ts⟩) ([], t.span) ⟨t.span, ts⟩ := by
  obtain ⟨h, close⟩ := Cursor.punct?_of_kind (s := s) (r := ts) ht
  refine ⟨h, ?_⟩
  rw [items, close]
  rfl

/-- The last element of an array, without a comma behind it. -/
theorem items_of_last {p : Punct} {i : Item} (begins : t.kind ≠ .punct p ∧ t.kind ≠ .punct .ellipsis ∧
      t.kind ≠ .punct .ampersand) (first : Yields (item ⟨s, t :: ts⟩) i ⟨sp, u :: us⟩)
    (hu : u.kind = .punct p) (comma : p ≠ .comma) :
    Yields (items p ⟨s, t :: ts⟩) ([i], u.span) ⟨u.span, us⟩ := by
  obtain ⟨_, step⟩ := Cursor.advance_cons s t ts
  obtain ⟨h₁, first⟩ := first
  obtain ⟨h₂, stop⟩ := Cursor.punct?_of_kind (s := sp) (r := us) hu
  have noComma : u.kind ≠ .punct .comma := by simpa [hu] using comma
  refine ⟨Nat.lt_trans h₂ h₁, ?_⟩
  rw [items, Cursor.punct?_eq_none begins.1, step]
  simp only [bind, Except.bind, Token.isPunct, beq_eq_false_iff_ne.2 begins.2.1,
    beq_eq_false_iff_ne.2 begins.2.2, Bool.or_self, Bool.false_eq_true, if_false, first,
    Cursor.punct?_eq_none noComma, stop]
  rfl

/-- An element of an array, a comma, and the others. -/
theorem items_of_comma {p : Punct} {i : Item} {is : List Item} {stop : Span}
    (begins : t.kind ≠ .punct p ∧ t.kind ≠ .punct .ellipsis ∧ t.kind ≠ .punct .ampersand)
    (first : Yields (item ⟨s, t :: ts⟩) i ⟨sp, u :: us⟩) (hu : u.kind = .punct .comma)
    (more : Yields (items p ⟨u.span, us⟩) (is, stop) c) :
    Yields (items p ⟨s, t :: ts⟩) (i :: is, stop) c := by
  obtain ⟨_, step⟩ := Cursor.advance_cons s t ts
  obtain ⟨h₁, first⟩ := first
  obtain ⟨h₂, comma⟩ := Cursor.punct?_of_kind (s := sp) (r := us) hu
  obtain ⟨h₃, more⟩ := more
  refine ⟨Nat.lt_trans h₃ (Nat.lt_trans h₂ h₁), ?_⟩
  rw [items, Cursor.punct?_eq_none begins.1, step]
  simp only [bind, Except.bind, Token.isPunct, beq_eq_false_iff_ne.2 begins.2.1,
    beq_eq_false_iff_ne.2 begins.2.2, Bool.or_self, Bool.false_eq_true, if_false, first, comma, more]
  rfl

/-- An element without a key. -/
theorem item_of_value (read : Yields (expression 0 c) a d)
    (none : d.atPunct .doubleArrow = false) : Yields (item c) (.value a) d := by
  obtain ⟨h, read⟩ := read
  refine ⟨h, ?_⟩
  rw [item, read]
  simp only [bind, Except.bind, Cursor.punct?_eq_none_iff.2 none]
  rfl

/-- An element with a key. -/
theorem item_of_keyed (key : Yields (expression 0 c) a ⟨sp, u :: us⟩)
    (hu : u.kind = .punct .doubleArrow) (value : Yields (expression 0 ⟨u.span, us⟩) b d) :
    Yields (item c) (.keyed a b) d := by
  obtain ⟨h₁, key⟩ := key
  obtain ⟨h₂, arrow⟩ := Cursor.punct?_of_kind (s := sp) (r := us) hu
  obtain ⟨h₃, value⟩ := value
  refine ⟨Nat.lt_trans h₃ (Nat.lt_trans h₂ h₁), ?_⟩
  rw [item, key]
  simp only [bind, Except.bind, arrow, value]
  rfl

end ConfigScript.Script
