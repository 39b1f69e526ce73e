import ConfigScript.Proofs.Files.Held
import ConfigScript.Proofs.Parsing.Skipped
import ConfigScript.Reader

/-!
# Conditionals in the alternative syntax

A conditional `if (C): … endif;` is not known. It is skipped, but what is skipped ends with the
first statement of its body (`Script.statement_of_alternative`). Those behind that one are read like
any others, so they run whether the condition holds or not (`Frame.execAll_of_alternative`).
-/

namespace ConfigScript.Frame

open Script

variable {s sx : Span} {t o x u : Token} {ts us : List Token} {d : Cursor} {C : Expr} {a : Stmt}

/-- Statements that begin with a conditional in the alternative syntax do what those behind the
first statement of its body do, whatever the condition is. -/
theorem execAll_of_alternative {rest : List Stmt} (word : t.isKeyword "if")
    (paren : o.kind = .punct .openParen)
    (condition : Yields (expression 0 ⟨o.span, ts⟩) C ⟨sx, x :: u :: us⟩)
    (close : x.kind = .punct .closeParen) (colon : u.kind = .punct .colon)
    (first : Settles ⟨u.span, us⟩ a d) (behind : statements d = .ok rest) :
    ∃ body, statements ⟨s, t :: o :: ts⟩ = .ok body ∧
      ∀ (f : Frame) (runner : Option Runner), f.execAll runner body = f.execAll runner rest := by
  have skipped := statement_of_alternative (s := s) word paren condition close colon first
  have parsed : statements ⟨s, t :: o :: ts⟩ =
      .ok (.opaqueStmt (t.span.through d.last) :: rest) := by
    rw [statements_of_statement skipped, behind]
    rfl
  refine ⟨_, parsed, fun f runner ↦ ?_⟩
  rw [execAll, exec, pure_bind]

/-- Of two constants, the first one is skipped. -/
example : (Reader.standard.readSource (.single [])
    "<?php if (false): define('A', 1); define('B', 2); endif;".toList ⟨['/', 'a']⟩).toOption.map
      (·.map Entry.name) = some ["B"] := by decide +kernel

end ConfigScript.Frame
