import ConfigScript.Proofs.Appending.Statement
import ConfigScript.Proofs.Lexing.LineEnd
import ConfigScript.Proofs.Patching.Value

/-!
# Scripts one behind the other

A script that ends with a semicolon and a line break may be followed by more script: both are parsed as if
each stood alone (`parse_append`), and only the places of the second one move. The first line break keeps
their tokens apart, and the parser does not see behind the last semicolon (`statements_append`) unless the
second script goes on with a conditional of the first.
-/

namespace ConfigScript.Script

/-! ### The token read before -/

section Last

variable (s s' : Span) (ts : List Token)

/-- Whether an assignment is ahead does not depend on the token read before. -/
theorem assignment?_last : assignment? ⟨s, ts⟩ = assignment? ⟨s', ts⟩ := by
  have left : target ⟨s, ts⟩ = target ⟨s', ts⟩ := by
    rw [target, target]
    cases ts <;> rfl
  rw [assignment?, assignment?, left]
  refine congrArg (target ⟨s', ts⟩ >>= ·) (funext fun left ↦ ?_)
  cases left.next.advance with
  | error => rfl
  | ok t =>
    dsimp only
    cases assignOp? t.value <;> rfl

theorem expressionStatement_last : expressionStatement ⟨s, ts⟩ = expressionStatement ⟨s', ts⟩ := by
  rw [expressionStatement, expressionStatement, expression_last 0 s s' ts]
  cases ts <;> rfl

theorem opaqueStatement_last : opaqueStatement ⟨s, ts⟩ = opaqueStatement ⟨s', ts⟩ := by
  rw [opaqueStatement, opaqueStatement]
  cases ts <;> rfl

/-- A statement with a grammar does not depend on the token read before. -/
theorem structured_last : structured ⟨s, ts⟩ = structured ⟨s', ts⟩ := by
  rw [structured, structured, assignment?_last s s' ts, expressionStatement_last s s' ts]
  cases ts with
  | nil => rfl
  | cons t ts =>
    obtain ⟨_, step⟩ := Cursor.advance_cons s t ts
    obtain ⟨_, step'⟩ := Cursor.advance_cons s' t ts
    rw [step, step']
    simp only [bind, Except.bind]
    cases t.kind with
    | ident name =>
      dsimp only
      cases wordStatement? (String.ofList (lower name.toList)) t ⟨t.span, ts⟩ <;> rfl
    | var name =>
      dsimp only
      cases assignment? ⟨s', t :: ts⟩ with
      | error => rfl
      | ok a => cases a <;> rfl
    | _ => rfl

/-- A statement does not depend on the token read before, as one token of it is read at least. -/
theorem statement_last : statement ⟨s, ts⟩ = statement ⟨s', ts⟩ := by
  rw [statement, statement, structured_last s s' ts, opaqueStatement_last s s' ts]
  cases ts with
  | nil => rfl
  | cons t ts =>
    obtain ⟨_, step⟩ := Cursor.advance_cons s t ts
    obtain ⟨_, step'⟩ := Cursor.advance_cons s' t ts
    rw [step, step']
    simp only [bind, Except.bind]
    cases structured ⟨s', t :: ts⟩ <;> split <;> rfl

/-- The statements do not depend on the token read before. -/
theorem statements_last : statements ⟨s, ts⟩ = statements ⟨s', ts⟩ := by
  rw [statements, statements, statement_last s s' ts]
  rfl

end Last

/-- At another place the statements are the same, but for where they stand. -/
theorem statements_moved (p q : Place) {s : Span} {ts : List Token} {ss : List Stmt}
    (parsed : statements ⟨s, ts⟩ = .ok ss) (s' : Span) :
    statements ⟨s', ts.map (Token.moved p q)⟩ = .ok ((Patch.moving p q).stmts ss) := by
  let w : Twinning := ⟨.moving p q, True, True, fun _ _ ↦ False⟩
  have settled : w.Settled := ⟨trivial, trivial, fun hole ↦ hole.elim, fun hole ↦ hole.elim⟩
  have off : ∀ s, w.patch.Off s := fun _ _ hole ↦ nomatch hole
  have twins (us : List Token) : Twins w us (us.map (Token.moved p q)) := by
    induction us with
    | nil => exact .nil
    | cons t us ih => exact .cons (w := w) (off t.span) (fun _ _ _ _ hole ↦ hole.elim) ih
  rw [statements_last s' (w.patch.move s)]
  exact settled.statements_patched ⟨rfl, twins ts⟩ parsed

/-! ### The opening tag -/

theorem statements_of_openTag (s : Span) {t : Token} (ts : List Token) (h : t.kind = .openTag) :
    statements ⟨s, t :: ts⟩ = statements ⟨t.span, ts⟩ := by
  rw [statements_of_statement (statement_of_openTag s ts h)]
  cases statements ⟨t.span, ts⟩ <;> rfl

/-- The script behind an opening tag is cut and parsed on its own. -/
theorem exists_of_parse_opening {S : List Char} {ss : List Stmt} {us : List Token}
    (parsed : parse ("<?php ".toList ++ S) = .ok ss) (read : tokenize ("<?php ".toList ++ S) = .ok us) :
    ∃ m, Lexes [] .script (Place.start.past "<?php ".toList) S us.tail m ∧
      ∃ s, statements ⟨s, us.tail⟩ = .ok ss := by
  obtain ⟨ts, _, lexes, made⟩ := exists_of_parse parsed
  obtain rfl := Except.ok.inj (read.symm.trans lexes.tokensFrom_eq)
  have whole : .ok us = (tokensFrom .script (Place.start.past "<?php ".toList) S).map _ :=
    read.symm.trans (lexes_openTag (.inl rfl) S).tokensFrom_append
  cases cut : tokensFrom .script (Place.start.past "<?php ".toList) S with
  | error e =>
    rw [cut] at whole
    cases whole
  | ok vs =>
    rw [cut] at whole
    obtain rfl := Except.ok.inj whole
    obtain ⟨m, behind⟩ := exists_lexes cut
    exact ⟨m, behind, _, (statements_of_openTag default vs rfl).symm.trans made⟩

/-! ### Scripts -/

/-- Tokens that end a branch do so where they move to. -/
theorem EndsBranch.moved {ts : List Token} (h : EndsBranch ts) (p q : Place) :
    EndsBranch (ts.map (Token.moved p q)) := by
  intro t ht
  rw [List.head?_map] at ht
  obtain ⟨u, hu, rfl⟩ := Option.map_eq_some_iff.1 ht
  exact h u hu

/-- Behind a semicolon and a line break, more script is parsed as if it stood alone behind an opening tag,
and moved there. -/
theorem parse_append {P S : List Char} {ps ss : List Stmt} {ts us : List Token}
    (first : parse P = .ok ps) (read : tokenize P = .ok ts)
    (semicolon : ts.getLast?.any (·.isPunct .semicolon)) (line : P.getLast? = some '\n')
    (second : parse ("<?php ".toList ++ S) = .ok ss) (read' : tokenize ("<?php ".toList ++ S) = .ok us)
    (other : EndsBranch us.tail) :
    parse (P ++ S) =
      .ok (ps ++ (Patch.moving (Place.start.past "<?php ".toList) (Place.start.past P)).stmts ss) := by
  obtain ⟨_, m, lexes, made⟩ := exists_of_parse first
  obtain rfl := Except.ok.inj (read.symm.trans lexes.tokensFrom_eq)
  obtain ⟨m', lexes', s, made'⟩ := exists_of_parse_opening second read'
  obtain ⟨t, last, kind⟩ : ∃ t, ts.getLast? = some t ∧ t.kind = .punct .semicolon := by
    rw [Option.any_eq_true] at semicolon
    simpa [Token.isPunct] using semicolon
  have only : ∀ u ∈ ts.getLast?, u.kind = .punct .semicolon := fun u hu ↦ by
    obtain rfl := Option.some.inj (last.symm.trans hu)
    exact kind
  -- The tokens of the first script stay, and those of the second one move behind it.
  have behind := lexes'.moved (q := Place.start.past P) (.refl _)
  rw [Place.moved_self] at behind
  obtain ⟨P, rfl⟩ := List.getLast?_eq_some_iff.1 line
  have front := lexes.append_line (by rintro rfl; cases last) only (S ++ [])
  refine parse_of_lexes (front.append behind) ?_
  exact statements_append (.inr ⟨t, last, kind⟩) (closing_of_statements made) (other.moved _ _) made
    (statements_moved _ _ made')

/-- If a script ends with a semicolon and a line break, then more script behind it leaves its statements as
they are, and adds those that it makes up on its own, up to their places. -/
theorem exists_parse_append {P S : List Char} {ps ss : List Stmt} {ts us : List Token}
    (first : parse P = .ok ps) (read : tokenize P = .ok ts)
    (semicolon : ts.getLast?.any (·.isPunct .semicolon)) (line : P.getLast? = some '\n')
    (second : parse ("<?php ".toList ++ S) = .ok ss) (read' : tokenize ("<?php ".toList ++ S) = .ok us)
    (other : EndsBranch us.tail) :
    ∃ ms, parse (P ++ S) = .ok (ps ++ ms) ∧ Stmt.unplacedList ms = Stmt.unplacedList ss :=
  ⟨_, parse_append first read semicolon line second read' other, Patch.unplaced_stmts rfl ss⟩

/-- Two scripts one behind the other. The first holds the word `else` in a comment only, and the second
begins with a name that merely begins like that word. -/
theorem exists_parse_append_elsewhere : ∃ ps ss ms,
    parse "<?php if (A) f(); // no 'else'\n".toList = .ok ps ∧
    parse "<?php elsewhere(); while (B) \x7b $c = 1; \x7d ?>text".toList = .ok ss ∧
    parse "<?php if (A) f(); // no 'else'\nelsewhere(); while (B) \x7b $c = 1; \x7d ?>text".toList =
      .ok (ps ++ ms) ∧ Stmt.unplacedList ms = Stmt.unplacedList ss := by
  obtain ⟨ps, first, -⟩ := exists_of_any (p := fun _ ↦ true) (show (parse
    "<?php if (A) f(); // no 'else'\n".toList).toOption.any _ by decide +kernel)
  obtain ⟨ts, read, semicolon⟩ := exists_of_any (p := (·.getLast?.any (·.isPunct .semicolon)))
    (show (tokenize "<?php if (A) f(); // no 'else'\n".toList).toOption.any _ by decide +kernel)
  obtain ⟨ss, second, -⟩ := exists_of_any (p := fun _ ↦ true) (show (parse ("<?php ".toList ++
    "elsewhere(); while (B) \x7b $c = 1; \x7d ?>text".toList)).toOption.any _ by decide +kernel)
  obtain ⟨us, read', other⟩ := exists_of_any (p := fun us ↦ us.tail.head?.all fun t ↦
      !t.isKeyword "else" && !t.isKeyword "elseif") (show (tokenize ("<?php ".toList ++
    "elsewhere(); while (B) \x7b $c = 1; \x7d ?>text".toList)).toOption.any _ by decide +kernel)
  obtain ⟨ms, whole, same⟩ := exists_parse_append first read semicolon rfl second read' fun t ht ↦ by
    simpa [Option.mem_def.1 ht] using other
  exact ⟨ps, ss, ms, first, second, whole, same⟩

end ConfigScript.Script
