import ConfigScript.Proofs.Written.Marker
import ConfigScript.Template

/-!
# The end of a new file

A new file ends with the standard marker and two statements: a conditional one that defines
`ABSPATH`, and one that loads the bootstrap file. Wherever this end begins, it is read as the same
statements up to their places, and these define nothing but `ABSPATH`.
-/

namespace ConfigScript

open Script

namespace Template

/-- A literal is the text of its characters. Stated for the literal as it stands, this spares the
kernel decoding it. -/
theorem toList_of_literal {s : String} {cs : List Char} (h : s = String.ofList cs) :
    s.toList = cs := by
  rw [h, String.toList_ofList]

theorem gap_of_literal (s : String) {cs : List Char} (h : s = String.ofList cs)
    (gap : isGapText .between cs) : Gap s.toList :=
  toList_of_literal h ▸ gap_of_isGapText gap

/-- The comments in front of the conditional statement. -/
def guardComment : String :=
  "/* That's all, stop editing! Happy publishing. */

/** Absolute path to the WordPress directory. */
"

/-- The comment in front of the statement that loads the bootstrap file. -/
def bootstrapComment : String := "\n\n/** Sets up WordPress vars and included files. */\n"

/-- The words of the conditional statement. -/
def guardWords : List Word :=
  [⟨guardComment.toList, .ident "if", "if".toList⟩,
    ⟨[' '], .punct .openParen, ['(']⟩, ⟨[' '], .punct .bang, ['!']⟩,
    ⟨[' '], .ident "defined", "defined".toList⟩, ⟨[], .punct .openParen, ['(']⟩,
    ⟨[' '], .str [.text "ABSPATH"], "'ABSPATH'".toList⟩, ⟨[' '], .punct .closeParen, [')']⟩,
    ⟨[' '], .punct .closeParen, [')']⟩, ⟨[' '], .punct .openBrace, ['\x7b']⟩,
    ⟨['\n', '\t'], .ident "define", "define".toList⟩, ⟨[], .punct .openParen, ['(']⟩,
    ⟨[' '], .str [.text "ABSPATH"], "'ABSPATH'".toList⟩, ⟨[], .punct .comma, [',']⟩,
    ⟨[' '], .ident "__DIR__", "__DIR__".toList⟩, ⟨[' '], .punct .dot, ['.']⟩,
    ⟨[' '], .str [.text "/"], "'/'".toList⟩, ⟨[' '], .punct .closeParen, [')']⟩,
    ⟨[], .punct .semicolon, [';']⟩, ⟨['\n'], .punct .closeBrace, ['\x7d']⟩]

/-- The words of the statement that loads the bootstrap file. -/
def bootstrapWords : List Word :=
  [⟨bootstrapComment.toList, .ident "require_once", "require_once".toList⟩,
    ⟨[' '], .ident "ABSPATH", "ABSPATH".toList⟩, ⟨[' '], .punct .dot, ['.']⟩,
    ⟨[' '], .str [.text "wp-settings.php"], "'wp-settings.php'".toList⟩,
    ⟨[], .punct .semicolon, [';']⟩]

/-- The words of the end. -/
def tailWords : List Word := guardWords ++ bootstrapWords

set_option maxRecDepth 2000 in
theorem text_tailWords : Words.text tailWords ++ ['\n'] = tail.toList := by
  rw [tailWords, guardWords, bootstrapWords, toList_of_literal (s := guardComment) rfl,
    toList_of_literal (s := bootstrapComment) rfl, toList_of_literal (s := tail) rfl]
  decide +kernel

/-- The words of the end are cut apart. -/
theorem fit_tailWords : Words.Fit ['\n'] tailWords := by
  have space : Gap [' '] := Row.gap_blank
  have guard : Gap guardComment.toList := gap_of_literal _ rfl (by decide +kernel)
  have bootstrap : Gap bootstrapComment.toList := gap_of_literal _ rfl (by decide +kernel)
  have line : Gap ['\n'] := Gap.blank (by decide)
  have indent : Gap ['\n', '\t'] := Gap.blanks (List.all_eq_true.1 (by decide))
  refine ⟨guard, ⟨_, _, rfl, rfl⟩, space, ⟨_, _, rfl, rfl⟩, space, ⟨_, _, rfl, rfl⟩, space,
    ⟨_, _, rfl, rfl⟩, Gap.nil, ⟨_, _, rfl, rfl⟩, space, ⟨_, _, rfl, rfl⟩, space,
    ⟨_, _, rfl, rfl⟩, space, ⟨_, _, rfl, rfl⟩, space, ⟨_, _, rfl, rfl⟩, indent,
    ⟨_, _, rfl, rfl⟩, Gap.nil, ⟨_, _, rfl, rfl⟩, space, ⟨_, _, rfl, rfl⟩, Gap.nil,
    ⟨_, _, rfl, rfl⟩, space, ⟨_, _, rfl, rfl⟩, space, ⟨_, _, rfl, rfl⟩, space,
    ⟨_, _, rfl, rfl⟩, space, ⟨_, _, rfl, rfl⟩, Gap.nil, ⟨_, _, rfl, rfl⟩, line,
    ⟨_, _, rfl, rfl⟩, bootstrap, ⟨_, _, rfl, rfl⟩, space, ⟨_, _, rfl, rfl⟩, space,
    ⟨_, _, rfl, rfl⟩, space, ⟨_, _, rfl, rfl⟩, Gap.nil, ⟨_, _, rfl, rfl⟩, trivial⟩

set_option maxRecDepth 2000 in
/-- The end begins with the marker. -/
theorem splitAtFirst_tail :
    Text.splitAtFirst Edit.standardAnchor tail.toList = some ([], tail.toList) := by
  rw [toList_of_literal (s := tail) rfl]
  rfl

/-- The tokens of the end. -/
def tailTokens (p : Place) : List Token := Words.tokens p tailWords

theorem lexes_tail (p : Place) : Lexes [] .script p tail.toList (tailTokens p) .script := by
  have words : Lexes (['\n'] ++ []) .script p (Words.text tailWords) (tailTokens p) .script :=
    Words.lexes fit_tailWords p
  have cut := words.append (Gap.blank (c := '\n') (by decide) [] _)
  rwa [text_tailWords, List.append_nil] at cut

/-- The conditional statement of the end, at whatever places. -/
inductive IsGuard : Stmt → Prop
  | intro (s₁ s₂ s₃ s₄ s₅ s₆ s₇ s₈ s₉ s₁₀ : Span) : IsGuard
      (.conditional s₁
        [.mk (.unary s₂ .not (.call s₃ "defined" [.str s₄ [.text "ABSPATH"]]))
          [.expr s₅ (.call s₆ "define" [.str s₇ [.text "ABSPATH"],
            .binary s₈ .concat (.magic s₉ .dir) (.str s₁₀ [.text "/"])])]]
        none)

/-- The statement of the end that loads the bootstrap file, at whatever places. -/
inductive IsBootstrap : Stmt → Prop
  | intro (s₁ s₂ s₃ s₄ : Span) : IsBootstrap
      (.load s₁ .requireOnce
        (.binary s₂ .concat (.const s₃ "ABSPATH") (.str s₄ [.text "wp-settings.php"])))

/-- A word with a text joined to it, in front of a token that ends the expression. -/
theorem expression_of_joined {s : Span} {t dot lit u : Token} {ts : List Token} {n v : String}
    {e : Expr} (ht : t.kind = .ident n) (word : Yields (named n t ⟨t.span, dot :: lit :: u :: ts⟩) e
      ⟨t.span, dot :: lit :: u :: ts⟩)
    (hd : dot.kind = .punct .dot) (hl : lit.kind = .str [.text v]) (hu : endsExpression u) :
    Yields (expression 0 ⟨s, t :: dot :: lit :: u :: ts⟩)
      (.binary (e.span.through lit.span) .concat e (.str lit.span [.text v]))
      ⟨lit.span, u :: ts⟩ := by
  refine expression_of_unary (unary_of_primary ?_ (primary_of_ident ht word) (suffixes_of_ends ?_))
    (operators_of_binary (o := ⟨.concat, 14, false⟩) ?_ ?_ (Nat.zero_le _)
      (expression_literal hl hu) (operators_of_ends hu))
  · simp [prefixOperator?, isReferenceMark, Token.isPunct, ht]
  · simp [endsOperand, hd]
  · simp [hd]
  · simp [operator?, punctOperator?, hd]

/-- The negated call of a function with one text. -/
theorem expression_of_negated {s : Span} {bang t paren lit close u : Token} {ts : List Token}
    {n v : String} (hb : bang.kind = .punct .bang) (ht : t.kind = .ident n) (plain : isPlainName n)
    (hp : paren.kind = .punct .openParen) (hl : lit.kind = .str [.text v])
    (hc : close.kind = .punct .closeParen) (hu : u.kind = .punct .closeParen) :
    Yields (expression 0 ⟨s, bang :: t :: paren :: lit :: close :: u :: ts⟩)
      (.unary (bang.span.through (t.span.through close.span)) .not
        (.call (t.span.through close.span) n [.str lit.span [.text v]]))
      ⟨close.span, u :: ts⟩ := by
  have closes : ∀ u : Token, u.kind = .punct .closeParen → endsExpression u := by
    intro u hu
    simp [endsExpression, endsOperand, operator?, punctOperator?, Token.isPunct, hu]
  have call : Yields (expression prefixBinding ⟨bang.span, t :: paren :: lit :: close :: u :: ts⟩)
      (.call (t.span.through close.span) n [.str lit.span [.text v]]) ⟨close.span, u :: ts⟩ := by
    refine expression_of_unary (unary_of_primary ?_ (primary_of_ident ht (named_of_call plain hp
      (arguments_of_last ?_ (expression_literal hl (closes close hc)) hc)))
      (suffixes_of_ends ?_)) (operators_of_ends (closes u hu))
    · simp [prefixOperator?, isReferenceMark, Token.isPunct, ht]
    · simp [hl]
    · simp [endsOperand, hu]
  exact expression_of_unary (unary_of_prefixed (by simp [prefixOperator?, hb]) call)
    (operators_of_ends (closes u hu))

/-- The end begins with the conditional statement. -/
theorem parses_guard (p : Place) (s : Span) :
    ∃ stmt last, Yields (statement ⟨s, tailTokens p⟩) (some stmt)
      ⟨last, (tailTokens p).drop 19⟩ ∧ IsGuard stmt := by
  have other : ∀ w, w = "elseif" ∨ w = "else" →
      (tokenAt default (.ident "require_once") []).keyword? ≠ some w := by
    rintro w (rfl | rfl) <;> decide
  exact ⟨_, _, statement_of_structured (.inl ⟨"if", rfl⟩) (structured_of_branch rfl
    (branch_of_block rfl (expression_of_negated rfl rfl (by decide) rfl rfl rfl rfl) rfl rfl
      (block_of_statement nofun
        (statement_of_call rfl (by decide) (by decide) rfl
          (arguments_of_comma ⟨nofun, nofun, nofun⟩ (expression_literal rfl rfl) rfl
            (arguments_of_last ⟨nofun, nofun, nofun⟩
              (expression_of_joined rfl (named_of_literal nofun rfl) rfl rfl rfl) rfl)) rfl)
        (block_of_close rfl)))
    (alternatives_of_none ⟨other _ (.inl rfl), other _ (.inr rfl)⟩)), .intro ..⟩

/-- Behind the conditional statement of the end stands the one that loads the bootstrap file. -/
theorem parses_bootstrap (p : Place) (s : Span) :
    ∃ stmt last, Yields (statement ⟨s, (tailTokens p).drop 19⟩) (some stmt) ⟨last, []⟩ ∧
      IsBootstrap stmt := by
  refine ⟨_, _, statement_of_structured (.inl ⟨"require_once", rfl⟩)
    (structured_of_load (k := .requireOnce) rfl rfl (by decide)
      (expression_of_joined rfl (named_of_constant ⟨nofun, nofun⟩ (fun _ ↦ rfl) (by decide)
        (by decide)) rfl rfl rfl) rfl), .intro ..⟩

/-- The end is parsed as its two statements. -/
theorem parses_tail (p : Place) (s : Span) :
    ∃ guard bootstrap, statements ⟨s, tailTokens p⟩ = .ok [guard, bootstrap] ∧
      IsGuard guard ∧ IsBootstrap bootstrap := by
  obtain ⟨guard, last, first, hg⟩ := parses_guard p s
  obtain ⟨bootstrap, last', second, hb⟩ := parses_bootstrap p last
  refine ⟨guard, bootstrap, ?_, hg, hb⟩
  rw [statements_of_statement first, statements_of_statement second, statements_of_nil]
  rfl

/-! ### What the end defines -/

/-- The end defines nothing but `ABSPATH`. -/
theorem inStmts_tail {guard bootstrap : Stmt} (hg : IsGuard guard) (hb : IsBootstrap bootstrap)
    (kind : EntryKind) {name : String} (hn : name ≠ "ABSPATH") :
    Occurrence.inStmts kind name [guard, bootstrap] = [] := by
  obtain ⟨⟩ := hg
  obtain ⟨⟩ := hb
  have define : ∀ s e v, Occurrence.definedValue? name
      (.call s "define" [.str e [.text "ABSPATH"], v]) = none := by
    intro s e v
    rw [Row.definedValue?_define, if_neg]
    rintro ⟨⟩
    exact hn rfl
  have defined : ∀ s e, Occurrence.definedValue? name (.call s "defined" [e]) = none :=
    fun _ _ ↦ rfl
  have not : ∀ s op e, Occurrence.definedValue? name (.unary s op e) = none := fun _ _ _ ↦ rfl
  have joined : ∀ s op l r, Occurrence.definedValue? name (.binary s op l r) = none :=
    fun _ _ _ _ ↦ rfl
  have text : ∀ s ps, Occurrence.definedValue? name (.str s ps) = none := fun _ _ ↦ rfl
  have magic : ∀ s k, Occurrence.definedValue? name (.magic s k) = none := fun _ _ ↦ rfl
  cases kind <;>
    simp only [Occurrence.inStmts, Occurrence.inStmt, Occurrence.inBranches, Occurrence.inExpr,
      Expr.nodes, Expr.listNodes, List.filterMap_cons, List.filterMap_nil, define, defined,
      List.nil_append, List.append_nil, List.cons_append, if_true, if_false, reduceCtorEq,
      not, joined, text, magic, List.map_nil]

end Template

end ConfigScript
