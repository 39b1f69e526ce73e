import ConfigScript.Proofs.Patching.Kept

/-!
# How the parts of an expression are arranged

The parts of an expression stand one behind the other, in the order in which they are evaluated
(`Spells.apart`), and every expression begins where a token does (`Spells.begins`). As every expression of a
script is spelled by some of its tokens, so it is with all of them (`Holds.arranged`, `Holds.begins`).
-/

namespace ConfigScript

namespace Expr

/-- All that one expression holds stands in front of all that another one holds. -/
def Before (p q : Expr) : Prop := ∀ m ∈ p.nodes, ∀ n ∈ q.nodes, m.span.stop ≤ n.span.start

/-- The parts of an expression stand one behind the other, and so do those of the expressions inside. -/
def Arranged (e : Expr) : Prop := ∀ n ∈ e.nodes, n.parts.Pairwise Before

end Expr

namespace Script

open ConfigScript.Expr (Before)

/-- The expressions that a spelled form is made up of. -/
def Form.parts : Form → List Expr
  | .expr e => [e]
  | .args es _ => es
  | .items is _ => is.flatMap Item.parts
  | .item i => i.parts

/-- The expressions of a form are its parts with all inside them. -/
theorem Form.nodes_eq_parts (form : Form) : form.nodes = form.parts.flatMap Expr.nodes := by
  cases form with
  | expr e => rw [nodes, parts, List.flatMap_singleton]
  | args es => rw [nodes, parts, Expr.listNodes_eq_flatMap]
  | items is => rw [nodes, parts, Expr.itemNodes_eq_flatMap]
  | item i => rw [nodes, parts, Expr.itemNodes_eq_flatMap, List.flatMap_singleton]

/-- What is inside a part is inside the form. -/
theorem Form.mem_nodes {form : Form} {p n : Expr} (hp : p ∈ form.parts) (hn : n ∈ p.nodes) :
    n ∈ form.nodes := by
  rw [nodes_eq_parts]
  exact List.mem_flatMap.2 ⟨p, hp, hn⟩

/-- Where the expressions of a form stand. -/
theorem Spells.within {rest pre : List Token} {form : Form} (h : Spells rest pre form) {lo hi : Nat}
    (covers : Covers lo hi pre) : ∀ n ∈ form.nodes, lo ≤ n.span.start ∧ n.span.stop ≤ hi := by
  have spans := h.spans covers
  have nested : Nested lo hi form.nodes := by
    cases form with
    | expr e => exact spans.2.2
    | args es => exact spans.2
    | items is => exact spans.2
    | item i => exact spans
  exact fun n hn ↦ ⟨(nested.within n hn).1, (nested.within n hn).2.2⟩

/-- Forms whose tokens stand one behind the other do so themselves. -/
theorem before_of_covers {rest rest' pre pre' : List Token} {form form' : Form}
    (h : Spells rest pre form) (h' : Spells rest' pre' form') {lo m n hi : Nat} (le : m ≤ n)
    (covers : Covers lo m pre) (covers' : Covers n hi pre') :
    ∀ p ∈ form.parts, ∀ q ∈ form'.parts, p.Before q := by
  intro p hp q hq l hl l' hl'
  have first := h.within covers l (Form.mem_nodes hp hl)
  have second := h'.within covers' l' (Form.mem_nodes hq hl')
  omega

theorem parts_of_isAtom {e : Expr} (h : isAtom e) : e.parts = [] := by
  cases e <;> first | rfl | cases h

/-- The parts of an expression, or those of a form that is no expression. -/
def Form.inner : Form → List Expr
  | .expr e => e.parts
  | form => form.parts

/-- The parts of an expression stand one behind the other. -/
theorem Spells.apart {rest pre : List Token} {form : Form} (h : Spells rest pre form) {lo hi : Nat}
    (covers : Covers lo hi pre) : form.inner.Pairwise Before := by
  -- Two expressions in a row have a token in between; a group has what is inside it.
  induction h generalizing lo hi with
  | atom _ _ atom =>
    rw [Form.inner, parts_of_isAtom atom]
    exact .nil
  | @paren rest pre o c e ho hc inner ih =>
    obtain ⟨-, lo', hi', -, -, inside⟩ := covers.group inner.some
    have parts : (e.withSpan (o.span.through c.span)).parts = e.parts := by cases e <;> rfl
    rw [Form.inner, parts]
    exact ih inside
  | bracketed ho inner ih =>
    obtain ⟨lo', -, -, inside⟩ := covers.uncons inner.some
    exact ih inside
  | array plain ho inner ih | call plain ho inner ih =>
    obtain ⟨lo', -, inside⟩ := covers.tail [_] inner.some
    exact ih inside
  | opaqueName | opaqueSuffix | noArgs | noItems => exact .nil
  | unary | cast | lastArg | value => exact List.pairwise_singleton ..
  | @index rest pre inner o c e i ho hc base index ih ih' =>
    have grouped : pre ++ o :: (inner ++ [c]) = pre ++ [o] ++ (inner ++ [c]) := by simp
    rw [grouped] at covers
    obtain ⟨m, n, front, lt, back⟩ := covers.between base.some (by simp) (by simp)
    obtain ⟨-, hi', -, back⟩ := back.unsnoc index.some
    exact List.pairwise_pair.2 (before_of_covers base index (Nat.le_of_lt lt) front back _
      List.mem_cons_self _ List.mem_cons_self)
  | @binary rest pre pre' t op a b plain lhs rhs ih ih' =>
    rw [List.append_cons] at covers
    obtain ⟨m, n, front, lt, back⟩ := covers.between lhs.some (by simp) rhs.some
    exact List.pairwise_pair.2 (before_of_covers lhs rhs (Nat.le_of_lt lt) front back _
      List.mem_cons_self _ List.mem_cons_self)
  | @ternary rest pre pre' pre'' t u a b d plain plain' condition chosen other ih ih' ih'' =>
    rw [List.append_cons] at covers
    obtain ⟨m, n, front, lt, back⟩ := covers.between condition.some (by simp) (by simp)
    rw [List.append_cons] at back
    obtain ⟨m', n', middle, lt', back⟩ := back.between chosen.some (by simp) other.some
    have first := before_of_covers condition chosen (Nat.le_of_lt lt) front middle a
      List.mem_cons_self b List.mem_cons_self
    have second := before_of_covers chosen other (Nat.le_of_lt lt') middle back b
      List.mem_cons_self d List.mem_cons_self
    have outer : m ≤ n' := by
      have := middle.lt
      omega
    have third := before_of_covers condition other outer front back a List.mem_cons_self d
      List.mem_cons_self
    simp [Form.inner, Expr.parts, first, second, third]
  | @elvis rest pre pre' t u a b plain plain' condition other ih ih' =>
    have grouped : pre ++ t :: u :: pre' = pre ++ [t, u] ++ pre' := by simp
    rw [grouped] at covers
    obtain ⟨m, n, front, lt, back⟩ := covers.between condition.some (by simp) other.some
    exact List.pairwise_pair.2 (before_of_covers condition other (Nat.le_of_lt lt) front back _
      List.mem_cons_self _ List.mem_cons_self)
  | @moreArgs rest pre more c e es stop hc first asked others ih ih' =>
    rw [List.append_cons] at covers
    obtain ⟨m, n, front, lt, back⟩ := covers.between first.some (by simp) others.some
    exact List.pairwise_cons.2 ⟨before_of_covers first others (Nat.le_of_lt lt) front back e
      List.mem_cons_self, ih' back⟩
  | @lastItem rest pre c i hc first ih =>
    obtain ⟨-, hi', -, front⟩ := covers.unsnoc first.some
    have parts : (Form.items [i] c.span).inner = (Form.item i).inner := List.flatMap_singleton ..
    exact parts ▸ ih front
  | @moreItems rest pre more c i is stop hc first others ih ih' =>
    rw [List.append_cons] at covers
    obtain ⟨m, n, front, lt, back⟩ := covers.between first.some (by simp) others.some
    exact List.pairwise_append.2 ⟨ih front, ih' back,
      before_of_covers first others (Nat.le_of_lt lt) front back⟩
  | @keyed rest pre pre' t a b plain key value ih ih' =>
    rw [List.append_cons] at covers
    obtain ⟨m, n, front, lt, back⟩ := covers.between key.some (by simp) value.some
    exact List.pairwise_pair.2 (before_of_covers key value (Nat.le_of_lt lt) front back _
      List.mem_cons_self _ List.mem_cons_self)

/-- What holds where tokens begin holds where the expression begins that they spell: it begins with its first
token or with its first part. -/
theorem Spells.begins {P : Span → Prop} (through : ∀ s t, P s → P (s.through t)) {rest ts : List Token}
    {e : Expr} (h : Spells rest ts (.expr e)) (begins : ∀ t ∈ ts, P t.span) : P e.span := by
  generalize is : Form.expr e = form at h
  induction h generalizing e with
  | @atom _ t e' _ _ _ span =>
    cases is
    exact span ▸ begins t List.mem_cons_self
  | @paren _ _ o c e' =>
    cases is
    rw [Expr.span_withSpan]
    exact through _ _ (begins o List.mem_cons_self)
  | bracketed | array | call | opaqueName | unary | cast =>
    cases is
    exact through _ _ (begins _ List.mem_cons_self)
  | opaqueSuffix _ _ ih | index _ _ _ _ ih | binary _ _ _ ih | ternary _ _ _ _ _ ih | elvis _ _ _ _ ih =>
    cases is
    exact through _ _ (ih (fun t ht ↦ begins t (List.mem_append_left _ ht)) rfl)
  | _ => cases is

/-- Of the spans of an expression and of all inside it holds `P`, which tells where they begin. -/
def BeginAt (P : Span → Prop) (e : Expr) : Prop := ∀ n ∈ e.nodes, P n.span

/-! ### Scripts -/

/-- What holds where tokens begin holds where the expressions begin that they hold. -/
theorem Holds.begins {P : Span → Prop} (through : ∀ s t, P s → P (s.through t)) {rest ts : List Token}
    {rs : List Root} (h : Holds rest ts rs) (begins : ∀ t ∈ ts, P t.span) :
    ∀ r ∈ rs, BeginAt P r.expr := by
  intro r hr n hn
  obtain ⟨us, vs, ws, rfl, spells⟩ := h.inside (List.mem_flatMap.2 ⟨r, hr, hn⟩)
  exact spells.begins through fun t ht ↦ begins t (by simp [ht])

/-- The parts of the expressions that tokens hold stand one behind the other. -/
theorem Holds.arranged {rest ts : List Token} {rs : List Root} (h : Holds rest ts rs) (laid : Laid ts) :
    ∀ r ∈ rs, r.expr.Arranged := by
  intro r hr n hn
  obtain ⟨us, vs, ws, rfl, spells⟩ := h.inside (List.mem_flatMap.2 ⟨r, hr, hn⟩)
  obtain ⟨lo, hi, covers⟩ :=
    spells.exists_covers (laid.append_right.sublist (List.sublist_append_left vs ws))
  exact spells.apart covers

end Script

end ConfigScript
