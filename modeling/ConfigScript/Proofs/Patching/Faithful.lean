import ConfigScript.Proofs.Lexing.Last
import ConfigScript.Proofs.Parsing.Alone
import ConfigScript.Proofs.Patching.Value

/-!
# The text of an expression is that expression

The text that an expression of a script spans may be assigned to a variable, and then the value is the
same expression, but for where it stands (`parse_assigned_text`). Its tokens are the same in front of a semicolon
(`Lexes.semicolon`), in which the parser reads it alone (`Holds.alone`); then they are moved.
-/

namespace ConfigScript.Script

/-! ### Assigning a text -/

/-- What stands in front of the value in an assignment to `$x` is cut into three tokens. -/
theorem lexes_assigning (z : List Char) : ∃ tag name sign, tag.kind = .openTag ∧ name.kind = .var "x" ∧
    sign.kind = .punct .assign ∧ Lexes z .html .start assigning [tag, name, sign] .script := by
  let p : Place := Place.start.past "<?php ".toList
  let words : List Word := [⟨[], .var "x", ['$', 'x']⟩, ⟨[' '], .punct .assign, ['=']⟩]
  have fit : Words.Fit ([' '] ++ z) words := by
    refine ⟨.nil, fits_var (c := 'x') (r := []) rfl nofun ?_, .blank rfl, fits_assign ?_, trivial⟩
    · intro c hc
      obtain rfl := Option.some.inj hc
      exact ⟨rfl, by decide⟩
    · intro c hc
      obtain rfl := Option.some.inj hc
      decide
  have script : Lexes z .script p ("$x =".toList ++ [' ']) (Words.tokens p words) .script := by
    have both := (Words.lexes fit p).append (Gap.blank (c := ' ') rfl z _)
    rwa [List.append_nil] at both
  exact ⟨_, _, _, rfl, rfl, rfl, (lexes_openTag (.inl rfl) _).append script⟩

/-- A text that the parser reads as an expression in front of a semicolon may be assigned. -/
theorem parse_assigning {w : List Char} {us : List Token} {e : Expr}
    (lexes : Lexes [';'] .script assignedPlace w us .script)
    (asked : Asked us [tokenAt (assignedPlace.past w) (.punct .semicolon) [';']] e) :
    ∃ s t, parse (assigning ++ (w ++ [';'])) = .ok [.assign s .assign t e] ∧ t.name = "x" ∧
      t.indices = [] := by
  obtain ⟨tag, name, sign, ht, hn, hs, front⟩ := lexes_assigning (w ++ [';'])
  let semicolon : Token := tokenAt (assignedPlace.past w) (.punct .semicolon) [';']
  have stop : Lexes [] .script (assignedPlace.past w) [';'] [semicolon] .script :=
    (fits_bracket (p := .semicolon) (c := ';') [] (by simp)).lexes _
  have cut : Lexes [] .html .start (assigning ++ (w ++ [';']))
      ([tag, name, sign] ++ (us ++ [semicolon])) .script :=
    Lexes.append (by rwa [List.append_nil]) (lexes.append stop)
  have noReference : (Cursor.mk sign.span (us ++ [semicolon])).atPunct .ampersand = false := by
    obtain ⟨t, ts, same, begins⟩ := Twinning.begins_of_yields (asked sign.span)
    rw [same, Cursor.atPunct_cons, Token.isPunct, beq_eq_false_iff_ne]
    intro hk
    rw [beginsOperand, hk] at begins
    cases begins
  have assignment := statement_of_structured (s := tag.span) (.inr ⟨"x", hn⟩)
    (structured_of_assignment hn hs noReference (asked sign.span) rfl)
  have made : statements ⟨default, [tag, name, sign] ++ (us ++ [semicolon])⟩ =
      .ok [.assign (name.span.through semicolon.span) .assign
        ⟨"x", [], name.span.through name.span⟩ e] := by
    rw [List.cons_append, statements_of_statement (statement_of_openTag default _ ht),
      List.cons_append, List.cons_append, List.nil_append, statements_of_statement assignment,
      statements_of_nil]
    rfl
  exact ⟨_, _, parse_of_lexes cut made, rfl, rfl⟩

/-! ### Expressions of a script -/

theorem closing_of_endsAtom {t : Token} (h : endsAtom t) (p : Punct) (hk : t.kind = .punct p) :
    p = .closeParen ∨ p = .closeBracket := by
  unfold endsAtom at h
  rw [hk] at h
  split at h <;> simp_all

/-- The tokens of an expression that stands alone are cut from its text, in front of a semicolon. -/
theorem Alone.lexes {source : List Char} {ts : List Token} {m : Mode} {n : Expr} (h : Alone ts n)
    (lexes : Lexes [] .html .start source ts m) : ∃ p us, Stands us n ∧
      Covers p.offset (p.past (n.span.text source)).offset us ∧
      Lexes [';'] .script p (n.span.text source) us .script := by
  obtain ⟨as, us, bs, rfl, stands, lead⟩ := h
  have spells := stands.spells (t := tokenAt default (.punct .semicolon) [';']) rfl
  obtain ⟨lo, hi, covers, -⟩ := lexes.laid.1.append_right.covers spells.enclosed spells.some
  obtain ⟨start, stop, -⟩ := spells.spans covers
  have alone : (∀ u ∈ us.head?, u.kind ≠ .ident "echo") ∨ ∀ o ∈ as.getLast?, o.kind ≠ .openTag := by
    refine lead.imp_right ?_
    rintro ⟨front, t, rfl, script⟩ o ho
    rw [List.getLast?_concat] at ho
    obtain rfl := Option.some.inj ho
    exact script
  obtain ⟨x, w, y, rfl, -, inner, -, low, high, -⟩ :=
    lexes.excerpt spells.enclosed spells.some alone covers
  have text : n.span.text (x ++ (w ++ y)) = w := by
    rw [Place.offset_past, Place.start, Nat.zero_add] at low high
    rw [Span.text, start, stop, ← low, ← high, Text.byteLength_append, ← List.append_assoc,
      Text.sliceBytes_append]
  rw [← low, ← high, Place.past_append] at covers
  rw [List.append_nil] at inner
  refine ⟨Place.start.past x, us, stands, by rwa [text], ?_⟩
  rw [text]
  obtain ⟨us, t, rfl, ends⟩ := spells.endsAtom
  refine inner.semicolon (fun u hu ↦ (spells.enclosed.ne_openTag hu).2) (closing_of_endsAtom ends) ?_ []
  have last := covers.lastSpan default
  rwa [lastSpan_append, lastSpan_cons, lastSpan_nil] at last

/-- The text of an expression, assigned to a variable, is read as the same expression, but for where it
and the expressions in it stand. -/
theorem parse_assigned_text {source : List Char} {body : List Stmt} {n : Expr} (h : parse source = .ok body)
    (mem : n ∈ Root.nodes (Stmt.rootsOfList body)) :
    ∃ s t e, parse (assigning ++ (n.span.text source ++ [';'])) = .ok [.assign s .assign t e] ∧
      t.name = "x" ∧ t.indices = [] ∧ e.unplaced = n.unplaced := by
  obtain ⟨ts, m, lexes, made⟩ := exists_of_parse h
  have holds : Holds [] ts _ := holds_of_statements made
  obtain ⟨p, us, stands, covers, cut⟩ := (holds.alone mem).lexes lexes
  generalize n.span.text source = w at *
  have moved := cut.moved (p := p) (q := assignedPlace) (.refl _)
  rw [Place.moved_self] at moved
  have covers' := covers.moved (a := p) (b := assignedPlace) (Nat.le_refl _)
  have high : (p.past w).offset - p.offset + assignedPlace.offset = (assignedPlace.past w).offset := by
    rw [Place.offset_past, Place.offset_past]
    omega
  let semicolon : Token := tokenAt (assignedPlace.past w) (.punct .semicolon) [';']
  have behind : ∀ t ∈ [semicolon], (p.past w).offset - p.offset + assignedPlace.offset < t.span.stop := by
    intro t ht
    obtain rfl := List.mem_singleton.1 ht
    show _ < ((assignedPlace.past w).past [';']).offset
    rw [high, Place.offset_past (assignedPlace.past w)]
    exact Nat.lt_add_of_pos_right (by decide)
  have asked : Asked (us.map (Token.moved p assignedPlace)) [semicolon] _ :=
    (stands (tokenAt default (.punct .semicolon) [';']) [] rfl).moved rfl rfl covers' behind
      fun s ↦ by rw [covers.lastSpan]
  obtain ⟨s, t, parsed, name, indices⟩ := parse_assigning moved asked
  exact ⟨s, t, _, parsed, name, indices, Patch.unplaced_expr rfl n⟩

/-- An operand of an operator that binds more tightly, in front of another one. -/
theorem parse_assigned_text_operand : ∃ body n s t e, parse "<?php f(-$a ** 2 . 'b', [(int) $c->d]);".toList =
      .ok body ∧ n ∈ Root.nodes (Stmt.rootsOfList body) ∧ n.span = ⟨8, 16, 1, 9⟩ ∧
      parse (assigning ++ (n.span.text "<?php f(-$a ** 2 . 'b', [(int) $c->d]);".toList ++ [';'])) =
        .ok [.assign s .assign t e] ∧ e.unplaced = n.unplaced := by
  obtain ⟨body, parsed, some⟩ := exists_of_any (p := fun body ↦
    (Root.nodes (Stmt.rootsOfList body)).any fun n ↦ n.span == ⟨8, 16, 1, 9⟩) (show
      (parse "<?php f(-$a ** 2 . 'b', [(int) $c->d]);".toList).toOption.any _ by decide +kernel)
  obtain ⟨n, mem, span⟩ := List.any_eq_true.1 some
  obtain ⟨s, t, e, again, -, -, same⟩ := parse_assigned_text parsed mem
  exact ⟨body, n, s, t, e, parsed, mem, beq_iff_eq.1 span, again, same⟩

end ConfigScript.Script
