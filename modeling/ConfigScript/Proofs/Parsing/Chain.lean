import ConfigScript.Proofs.Parsing.Grouping
import ConfigScript.Proofs.Parsing.Rules

/-!
# Chains of operators

`OperatorChain c xs d` says that the tokens between the cursors `c` and `d` are the row of symbols
`xs`: operands, each read where it stands and with its prefix operators and casts in front of it,
and a binary operator between any two of them; behind `d` no operator goes on. It says nothing about
how the symbols belong together.

Main statement: the parser of expressions reads a chain to its end, and yields the one tree that the
precedence of operators allows for it (`expression_of_chain`). For an expression of any tightness
the parser takes a grouped tree from the front of the chain and stops at an operator that is too
loose (`OperatorChain.exists_expression`).
-/

namespace ConfigScript.Script

/-- No operator goes on with what is ahead. -/
def Cursor.EndsChain (c : Cursor) : Prop :=
  ∀ t ∈ c.rest.head?, t.kind ≠ .punct .question ∧ operator? t = none

/-- The tokens from `c` to `d` are the operand `e`, with nothing in front that applies to it: an
operand of the grammar with its indices, member accesses and calls. -/
inductive BareOperand : Cursor → Expr → Cursor → Prop
  | intro {s : Span} {t : Token} {ts : List Token} {a e : Expr} {c d : Cursor}
      (plain : prefixOperator? t = none ∧ isReferenceMark t = false)
      (noCast : cast? ⟨s, t :: ts⟩ = none) (base : Yields (primary ⟨s, t :: ts⟩) a c)
      (whole : Yields (suffixes a c) e d) : BareOperand ⟨s, t :: ts⟩ e d

mutual

/-- The tokens from `c` to `d` are the symbols of a chain. -/
inductive OperatorChain : Cursor → List Symbol → Cursor → Prop
  | sign {s : Span} {t : Token} {ts : List Token} {op : UnaryOp} {xs : List Symbol} {d : Cursor}
      (h : prefixOperator? t = some op) (rest : OperatorChain ⟨t.span, ts⟩ xs d) :
      OperatorChain ⟨s, t :: ts⟩ (.mark (.sign t.span op) :: xs) d
  | cast {s : Span} {t w u : Token} {ts : List Token} {kind : CastKind} {xs : List Symbol}
      {d : Cursor} (ho : t.kind = .punct .openParen) (hw : castKind? w = some kind)
      (hu : u.kind = .punct .closeParen) (rest : OperatorChain ⟨u.span, ts⟩ xs d) :
      OperatorChain ⟨s, t :: w :: u :: ts⟩ (.mark (.cast t.span kind) :: xs) d
  | operand {c c' d : Cursor} {e : Expr} {xs : List Symbol} (x : BareOperand c e c')
      (rest : OperatorTail c' xs d) : OperatorChain c (.operand e :: xs) d

/-- The same behind an operand: the chain is over, or an operator goes on with it. -/
inductive OperatorTail : Cursor → List Symbol → Cursor → Prop
  | over {d : Cursor} (h : d.EndsChain) : OperatorTail d [] d
  | operator {s : Span} {t : Token} {ts : List Token} {o : Operator} {xs : List Symbol} {d : Cursor}
      (h : operator? t = some o) (rest : OperatorChain ⟨t.span, ts⟩ xs d) :
      OperatorTail ⟨s, t :: ts⟩ (.operator o :: xs) d

end

/-- A bare operand is what is read where an operand is expected. -/
theorem BareOperand.unary {c d : Cursor} {e : Expr} (h : BareOperand c e d) :
    Yields (unary c) e d := by
  obtain ⟨plain, noCast, base, whole⟩ := h
  exact unary_of_operand plain noCast base whole

/-- A literal or a variable in front of what goes on with no operand. -/
theorem bare_of_literal {s : Span} {t u : Token} {ts : List Token} {e : Expr}
    (h : literal? t = some e) (ends : endsOperand u) :
    BareOperand ⟨s, t :: u :: ts⟩ e ⟨t.span, u :: ts⟩ := by
  have kinds : prefixOperator? t = none ∧ isReferenceMark t = false ∧
      t.isPunct .openParen = false := by
    unfold literal? at h
    split at h <;> simp_all [prefixOperator?, isReferenceMark, Token.isPunct]
  exact .intro ⟨kinds.1, kinds.2.1⟩ (cast?_eq_none kinds.2.2) (primary_of_literal h)
    (suffixes_of_ends ends)

/-- A question mark is no operator. -/
theorem question_of_operator {t : Token} {o : Operator} (h : operator? t = some o) :
    t.kind ≠ .punct .question := by
  intro question
  simp [operator?, question, punctOperator?] at h

mutual

/-- The operators of a chain stand in the table. -/
theorem OperatorChain.isKnown {c d : Cursor} {xs : List Symbol} (h : OperatorChain c xs d) :
    ∀ o, .operator o ∈ xs → o.IsKnown := by
  match h with
  | .sign _ rest => simpa using rest.isKnown
  | .cast _ _ _ rest => simpa using rest.isKnown
  | .operand _ rest => simpa using rest.isKnown
termination_by xs.length

/-- The operators of a chain are in the table. -/
theorem OperatorTail.isKnown {c d : Cursor} {xs : List Symbol} (h : OperatorTail c xs d) :
    ∀ o, .operator o ∈ xs → o.IsKnown := by
  match h with
  | .over _ => simp
  | .operator (o := o) h rest =>
    intro p mem
    rcases List.mem_cons.1 mem with same | mem
    · exact Symbol.operator.inj same ▸ ⟨_, h⟩
    · exact rest.isKnown p mem
termination_by xs.length

end

/-! ### What the parser takes -/

/-- The tree `g` is the front of the symbols `xs`, and the symbols `ys` behind it, which begin at
`c` and end at `d`, go on with nothing that is bound as tightly as `min`. -/
structure TakesGroup (min : Nat) (xs : List Symbol) (d : Cursor) (g : Grouping) (ys : List Symbol)
    (c : Cursor) : Prop where
  reading : xs = g.reading ++ ys
  grouped : g.IsGrouped
  tight : g.IsTight min
  loose : ∀ o, ys.head? = some (.operator o) → o.leftBinding < min
  remains : OperatorTail c ys d

theorem TakesGroup.isKnown {min : Nat} {xs ys : List Symbol} {c d : Cursor} {g : Grouping}
    (h : TakesGroup min xs d g ys c) (known : ∀ o, .operator o ∈ xs → o.IsKnown) : g.IsKnown :=
  fun o mem ↦ known o (h.reading ▸ List.mem_append_left _ mem)

/-- A chain is not continued by a conditional. -/
theorem OperatorTail.atPunct_question {c d : Cursor} {xs : List Symbol} (h : OperatorTail c xs d) :
    c.atPunct .question = false := by
  have kinds : ∀ t ∈ c.rest.head?, t.kind ≠ .punct .question := by
    match h with
    | .over ends => exact fun t head ↦ (ends t head).1
    | .operator h _ => simpa using question_of_operator h
  rw [Cursor.atPunct, Bool.eq_false_iff, ne_eq, Option.any_eq_true]
  rintro ⟨t, head, is⟩
  exact kinds t head (beq_iff_eq.1 is)

/-- The parser stops in front of an operator that is too loose. -/
theorem OperatorTail.operators_stays {min : Nat} {c d : Cursor} {xs : List Symbol} {e : Expr}
    (h : OperatorTail c xs d) (loose : ∀ o, xs.head? = some (.operator o) → o.leftBinding < min) :
    Yields (operators min e c) e c := by
  refine Script.operators_stays (fun question ↦ ?_) (binary?_eq_none_iff.2 fun t head o found ↦ ?_)
  · simp [h.atPunct_question] at question
  · match h with
    | .over ends => simp [(ends t head).2] at found
    | .operator h _ =>
      obtain rfl : _ = t := Option.some.inj head
      obtain rfl := Option.some.inj (h.symm.trans found)
      exact loose _ rfl

/-- What a prefix operator or cast applies to may be marked, and an operator behind it may have the
whole on its left. -/
theorem TakesGroup.marked {xs ys : List Symbol} {c d : Cursor} {g : Grouping} (m : Mark)
    (h : TakesGroup prefixBinding xs d g ys c) (known : ∀ o, .operator o ∈ xs → o.IsKnown) :
    (Grouping.marked m g).IsGrouped ∧
      ∀ o, ys.head? = some (.operator o) → (Grouping.marked m g).MayPrecede o := by
  refine ⟨⟨(Grouping.mayBeMarked_iff_isTight (h.isKnown known)).2 h.tight, h.grouped⟩, ?_⟩
  intro o head pow
  have ahead : o.IsKnown := h.remains.isKnown o (List.mem_of_head? head)
  exact absurd (ahead.op_eq_pow_iff.1 pow) (Nat.not_le.2 (h.loose o head))

/-- The same for an operator and its right operand. -/
theorem TakesGroup.binary {xs ys : List Symbol} {c d : Cursor} {o : Operator} {lhs g : Grouping}
    (h : TakesGroup o.rightBinding xs d g ys c) (known : o.IsKnown) (grouped : lhs.IsGrouped)
    (fits : lhs.MayPrecede o) :
    (Grouping.binary o lhs g).IsGrouped ∧
      ∀ p, ys.head? = some (.operator p) → (Grouping.binary o lhs g).MayPrecede p := by
  refine ⟨⟨fits, (Grouping.mayFollow_iff_isTight known).2 h.tight, grouped, h.grouped⟩, ?_⟩
  intro p head
  exact Grouping.mayPrecede_of_lt (h.remains.isKnown p (List.mem_of_head? head)) known
    (h.loose p head)

mutual

/-- The parser takes a grouped tree from the front of a chain. -/
theorem OperatorChain.exists_expression {min : Nat} {c d : Cursor} {xs : List Symbol}
    (h : OperatorChain c xs d) (bound : min ≤ Operator.powerBinding) :
    ∃ g ys c', TakesGroup min xs d g ys c' ∧ Yields (expression min c) g.expr c' := by
  have tightest : prefixBinding ≤ Operator.powerBinding := by decide
  match h with
  | @OperatorChain.sign _ t _ op xs _ h rest =>
    obtain ⟨g, ys, c₁, takes, read⟩ := rest.exists_expression tightest
    have shorter : ys.length ≤ xs.length := by simp [takes.reading]
    obtain ⟨grouped, fits⟩ := takes.marked (.sign t.span op) rest.isKnown
    obtain ⟨g', ys', c₂, takes', more⟩ := takes.remains.exists_operators bound grouped bound fits
    refine ⟨g', ys', c₂, ?_, expression_of_unary (unary_of_prefixed h read) more⟩
    exact takes.reading ▸ takes'
  | @OperatorChain.cast _ t _ _ _ kind xs _ ho hw hu rest =>
    obtain ⟨g, ys, c₁, takes, read⟩ := rest.exists_expression tightest
    have shorter : ys.length ≤ xs.length := by simp [takes.reading]
    obtain ⟨grouped, fits⟩ := takes.marked (.cast t.span kind) rest.isKnown
    obtain ⟨g', ys', c₂, takes', more⟩ := takes.remains.exists_operators bound grouped bound fits
    refine ⟨g', ys', c₂, ?_, expression_of_unary (unary_of_cast ho hw hu read) more⟩
    exact takes.reading ▸ takes'
  | .operand (e := e) x rest =>
    obtain ⟨g, ys, c₂, takes, more⟩ :=
      rest.exists_operators bound (show (Grouping.operand e).IsGrouped from trivial) trivial
        fun _ _ ↦ trivial
    exact ⟨g, ys, c₂, takes, expression_of_unary x.unary more⟩
termination_by 2 * xs.length + 1

/-- The parser goes on behind a grouped tree as long as the operators are tight enough. -/
theorem OperatorTail.exists_operators {min : Nat} {c d : Cursor} {xs : List Symbol} {lhs : Grouping}
    (h : OperatorTail c xs d) (bound : min ≤ Operator.powerBinding) (grouped : lhs.IsGrouped)
    (tight : lhs.IsTight min)
    (fits : ∀ o, xs.head? = some (.operator o) → lhs.MayPrecede o) :
    ∃ g ys c', TakesGroup min (lhs.reading ++ xs) d g ys c' ∧
      Yields (operators min lhs.expr c) g.expr c' := by
  by_cases loose : ∀ o, xs.head? = some (.operator o) → o.leftBinding < min
  · exact ⟨lhs, xs, c, ⟨rfl, grouped, tight, loose, h⟩, h.operators_stays loose⟩
  · match h with
    | .over _ => simp at loose
    | @OperatorTail.operator _ _ _ o xs _ h rest =>
      have known : o.IsKnown := ⟨_, h⟩
      have enough : min ≤ o.leftBinding := by simpa using loose
      -- The right operand goes as far as it is tighter than this operator, and the loop goes on.
      obtain ⟨g, ys, c₁, takes, right⟩ := rest.exists_expression known.rightBinding_le
      have shorter : ys.length ≤ xs.length := by simp [takes.reading]
      obtain ⟨grouped, fits⟩ := takes.binary known grouped (fits o rfl)
      obtain ⟨g', ys', c₂, takes', more⟩ :=
        takes.remains.exists_operators bound grouped enough fits
      refine ⟨g', ys', c₂, ?_, operators_of_binary (question_of_operator h) h enough right more⟩
      simpa [Grouping.reading, takes.reading] using takes'
termination_by 2 * xs.length

end

/-- A chain of operators is read to its end, as the one tree over its symbols in which each operand
of an operator, and what each prefix operator or cast applies to, is tight enough. -/
theorem expression_of_chain {c d : Cursor} {xs : List Symbol} (h : OperatorChain c xs d) :
    ∃ g : Grouping, g.reading = xs ∧ g.IsGrouped ∧
      (∀ g' : Grouping, g'.reading = xs → g'.IsGrouped → g' = g) ∧
        Yields (expression 0 c) g.expr d := by
  obtain ⟨g, ys, c', takes, read⟩ := h.exists_expression (Nat.zero_le _)
  have known : g.IsKnown := takes.isKnown h.isKnown
  -- Nothing is too loose for an expression as a whole, so no operator is left behind the tree.
  match ys, takes with
  | [], takes =>
    have whole : g.reading = xs := by simp [takes.reading]
    have place : c' = d := by
      match takes.remains with
      | .over _ => rfl
    refine ⟨g, whole, takes.grouped, fun g' same grouped ↦ ?_, place ▸ read⟩
    exact (Grouping.eq_of_reading_eq known takes.grouped grouped (whole.trans same.symm)).symm
  | y :: ys, takes =>
    match takes.remains, takes.loose with
    | .operator _ _, loose => exact absurd (loose _ rfl) (Nat.not_lt_zero _)

/-- The operators of `! $a . (int) $b ** - $c ** $d . $e and $f` as they group. -/
def mixedTree : Grouping :=
  let x n := Grouping.operand (.var default n)
  let power := Grouping.binary ⟨.pow, 19, true⟩
  let concat := Grouping.binary ⟨.concat, 14, false⟩
  let negated := Grouping.marked (.sign default .neg) (power (x "c") (x "d"))
  .binary ⟨.and, 3, false⟩
    (concat (concat (.marked (.sign default .not) (x "a"))
      (.marked (.cast default .int) (power (x "b") negated))) (x "e")) (x "f")

/-- Prefix operators, a cast and binary operators in one chain, with `**` binding tighter than the sign in
front of it: `!$a . (INT) $b ** -$c ** $d . $e And $f`. -/
theorem expression_of_chain_mixed :
    let tokens : List Token := [.punct .bang, .var "a", .punct .dot, .punct .openParen, .ident "INT",
      .punct .closeParen, .var "b", .punct .pow, .punct .minus, .var "c", .punct .pow, .var "d",
      .punct .dot, .var "e", .ident "And", .var "f", .punct .semicolon].map (⟨·, default, []⟩)
    let stop : Cursor := ⟨default, [⟨.punct .semicolon, default, []⟩]⟩
    OperatorChain ⟨default, tokens⟩ mixedTree.reading stop ∧
      Yields (expression 0 ⟨default, tokens⟩) mixedTree.expr stop := by
  intro tokens stop
  have chain : OperatorChain ⟨default, tokens⟩ mixedTree.reading stop :=
    .sign rfl (.operand (bare_of_literal rfl rfl) (.operator rfl
      (.cast rfl rfl rfl (.operand (bare_of_literal rfl rfl) (.operator rfl
        (.sign rfl (.operand (bare_of_literal rfl rfl) (.operator rfl
          (.operand (bare_of_literal rfl rfl) (.operator rfl
            (.operand (bare_of_literal rfl rfl) (.operator rfl
              (.operand (bare_of_literal rfl rfl) (.over (by
                simp [Cursor.EndsChain, operator?, punctOperator?])))))))))))))))
  have grouped : mixedTree.IsGrouped := by
    simp [mixedTree, Grouping.IsGrouped, Grouping.MayPrecede, Grouping.MayFollow,
      Grouping.MayBeMarked]
  obtain ⟨g, -, -, unique, read⟩ := expression_of_chain chain
  exact ⟨chain, unique mixedTree rfl grouped ▸ read⟩

end ConfigScript.Script
