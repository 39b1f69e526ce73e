import ConfigScript.Proofs.Parsing.Placed
import ConfigScript.Proofs.Parsing.Rules

/-!
# Expressions alone

An expression within an accepted one is read from its tokens alone, in front of a semicolon (`Stands`,
`stood_of_asked`). For the parser looks at one token behind what it reads, so it reads the same in
front of tokens that begin alike, or with a semicolon (`Near`). Precedences do not get in the way: what
was read for a tight operator leads on where a looser one is asked for (`Whole`), and nothing goes on
with a semicolon.
-/

namespace ConfigScript.Script

variable {us vs rest k : List Token} {e e' : Expr}

/-! ### What follows -/

/-- The tokens `k` begin as `rest` does, or with a semicolon. -/
def Near (rest k : List Token) : Prop :=
  k.head? = rest.head? ∨ ∃ t ∈ k.head?, t.kind = .punct .semicolon

namespace Near

theorem cons (t : Token) (ts us : List Token) : Near (t :: ts) (t :: us) := .inl rfl

theorem semicolon {t : Token} (h : t.kind = .punct .semicolon) (rest ts : List Token) :
    Near rest (t :: ts) := .inr ⟨t, rfl, h⟩

/-- Tokens in front of both do not matter. -/
theorem append (us : List Token) (h : Near rest k) : Near (us ++ rest) (us ++ k) := by
  cases us with
  | nil => exact h
  | cons t us => exact .cons t _ _

/-- What holds of the token behind `rest` and of every semicolon holds of the token behind `k`. -/
theorem forall_head {P : Token → Prop} (h : Near rest k) (here : ∀ t ∈ rest.head?, P t)
    (semicolon : ∀ t : Token, t.kind = .punct .semicolon → P t) : ∀ t ∈ k.head?, P t := by
  rcases h with heads | ⟨t, ht, hk⟩
  · rwa [heads]
  · intro u hu
    obtain rfl := Option.mem_unique ht hu
    exact semicolon _ hk

/-- In front of tokens near to those behind `c`, the parser sees the punctuation it saw there, or it sees
a semicolon. -/
theorem atPunct {s : Span} {c : Cursor} {p : Punct} (h : Near c.rest k) (hp : p ≠ .semicolon) :
    (Cursor.mk s k).atPunct p = c.atPunct p ∨ (Cursor.mk s k).atPunct p = false := by
  rcases h with heads | ⟨t, ht, hk⟩
  · exact .inl (Cursor.atPunct_of_head? heads p)
  · refine .inr ?_
    rw [Cursor.atPunct, Cursor.current?, ht, Option.any_some, Token.isPunct, hk]
    simpa using hp.symm

/-- What is not ahead of `c` is not ahead of tokens near to it either, unless it is a semicolon. -/
theorem atPunct_eq_false {s : Span} {c : Cursor} {p : Punct} (h : Near c.rest k)
    (hp : p ≠ .semicolon) (none : c.atPunct p = false) : (Cursor.mk s k).atPunct p = false := by
  rcases h.atPunct (s := s) hp with same | other
  · rw [same, none]
  · exact other

end Near

theorem endsExpression_of_semicolon {t : Token} (h : t.kind = .punct .semicolon) :
    endsOperand t ∧ endsExpression t := by
  simp [endsExpression, endsOperand, operator?, punctOperator?, Token.isPunct, h]

/-! ### Reading again -/

/-- From the tokens `us` the parser `f` reads `a`, whatever follows near `rest`. -/
def Recurs {α : Type} {n : Cursor → Nat} (f : (c : Cursor) → Parse (Read α (n c)))
    (us rest : List Token) (a : α) : Prop :=
  ∀ s k, Near rest k → Yields (f ⟨s, us ++ k⟩) a ⟨lastSpan s us, k⟩

/-- With nothing of what follows near `rest` the parser `g` goes on. -/
def Halts (g : Expr → (c : Cursor) → Parse (Peeked Expr c.size)) (rest : List Token) : Prop :=
  ∀ e s k, Near rest k → Yields (g e ⟨s, k⟩) e ⟨s, k⟩

/-- The parser `f` reads the tokens `us` as `e`, and goes on as `g` does. -/
def Leads (f : (c : Cursor) → Parse (Read Expr c.size))
    (g : Expr → (c : Cursor) → Parse (Peeked Expr c.size)) (us rest : List Token) (e : Expr) : Prop :=
  ∀ s k a next, Near rest k → Yields (g e ⟨lastSpan s us, k⟩) a next → Yields (f ⟨s, us ++ k⟩) a next

/-- Behind `e` the parser `g` reads the tokens `us`, and goes on behind `e'`. -/
def Steps (g : Expr → (c : Cursor) → Parse (Peeked Expr c.size)) (us rest : List Token)
    (e e' : Expr) : Prop :=
  ∀ s k a next, Near rest k → Yields (g e' ⟨lastSpan s us, k⟩) a next →
    Yields (g e ⟨s, us ++ k⟩) a next

/-- In front of a semicolon the parser reads the expression `e` from the tokens `us`. -/
def Stands (us : List Token) (e : Expr) : Prop :=
  ∀ stop r, stop.kind = .punct .semicolon → Asked us (stop :: r) e

/-- Each of the expressions stands alone in some of the tokens. -/
def Stood (us : List Token) (ns : List Expr) : Prop := ∀ n ∈ ns, ∃ vs, vs <:+: us ∧ Stands vs n

section

variable {f : (c : Cursor) → Parse (Read Expr c.size)}
  {g : Expr → (c : Cursor) → Parse (Peeked Expr c.size)}

theorem Leads.recurs (h : Leads f g us rest e) (halts : Halts g rest) : Recurs f us rest e :=
  fun s k near ↦ h s k e _ near (halts e _ k near)

/-- One step more leads on from what was read so far. -/
theorem Leads.step (h : Leads f g us (vs ++ rest) e) (step : Steps g vs rest e e') :
    Leads f g (us ++ vs) rest e' := by
  intro s k a next near more
  rw [List.append_assoc]
  rw [lastSpan_append] at more
  exact h s (vs ++ k) a next (near.append vs) (step _ k a next near more)

end

theorem Recurs.stands (h : Recurs unary us rest e) : Stands us e := fun _ _ hs s ↦
  expression_of_unary (h s _ (.semicolon hs _ _)) (operators_of_ends (endsExpression_of_semicolon hs).2)

theorem Leads.stands (h : Leads (expression 0) (operators 0) us rest e) : Stands us e :=
  fun _ _ hs s ↦ h s _ _ _ (.semicolon hs _ _) (operators_of_ends (endsExpression_of_semicolon hs).2)

/-- An operand that is led to by its tokens stands in them alone. -/
theorem Leads.stands_operand (h : Leads unary suffixes us rest e) : Stands us e := fun _ _ hs s ↦
  expression_of_unary
    (h s _ _ _ (.semicolon hs _ _) (suffixes_of_ends (endsExpression_of_semicolon hs).1))
    (operators_of_ends (endsExpression_of_semicolon hs).2)

namespace Stood

variable {ns ms : List Expr}

theorem nil (us : List Token) : Stood us [] := nofun

/-- An expression stands with those inside it. -/
theorem cons (own : Stands us e) (h : Stood us ns) : Stood us (e :: ns) := fun n hn ↦ by
  rcases List.mem_cons.1 hn with rfl | hn
  · exact ⟨us, List.infix_refl us, own⟩
  · exact h n hn

theorem within (h : Stood us ns) (part : us <:+: vs) : Stood vs ns := fun n hn ↦
  let ⟨ws, inside, stands⟩ := h n hn
  ⟨ws, inside.trans part, stands⟩

/-- Tokens in front and behind. -/
theorem between (h : Stood us ns) (a b : List Token) : Stood (a ++ (us ++ b)) ns :=
  h.within ⟨a, b, by simp⟩

theorem append (h : Stood us ns) (h' : Stood us ms) : Stood us (ns ++ ms) := fun n hn ↦
  (List.mem_append.1 hn).elim (h n) (h' n)

end Stood

/-! ### Expressions and operands -/

/-- The tokens `us` in front of `rest` are the expression `e`, whose operators bind at least as tightly
as `min`. -/
structure Whole (min : Nat) (us rest : List Token) (e : Expr) : Prop where
  leads : ∀ m ≤ min, Leads (expression m) (operators m) us rest e
  stood : Stood us e.nodes

/-- The tokens `us` in front of `rest` are the operand `e`. -/
structure Operand (us rest : List Token) (e : Expr) : Prop where
  leads : Leads unary suffixes us rest e
  stood : Stood us e.nodes

theorem Whole.recurs {min : Nat} (h : Whole min us rest e) (halts : Halts (operators min) rest) :
    Recurs (expression min) us rest e := (h.leads min (Nat.le_refl min)).recurs halts

/-- What was read behind an expression makes up another one with it. -/
theorem Whole.step {min : Nat} {ns : List Expr} (h : Whole min us (vs ++ rest) e)
    (step : ∀ m ≤ min, Steps (operators m) vs rest e e') (nodes : e'.nodes = e' :: (e.nodes ++ ns))
    (stood : Stood vs ns) : Whole min (us ++ vs) rest e' := by
  have leads : ∀ m ≤ min, Leads (expression m) (operators m) (us ++ vs) rest e' := fun m le ↦
    (h.leads m le).step (step m le)
  refine ⟨leads, ?_⟩
  rw [nodes]
  exact .cons (leads 0 (Nat.zero_le min)).stands
    ((h.stood.within (List.infix_append_left ..)).append (stood.within (List.infix_append_right ..)))

/-- What was read behind an operand makes up another one with it; of the operand itself perhaps nothing
is kept. -/
theorem Operand.step {ns : List Expr} (h : Operand us (vs ++ rest) e)
    (step : Steps suffixes vs rest e e') (nodes : ∀ n ∈ e'.nodes, n = e' ∨ n ∈ e.nodes ∨ n ∈ ns)
    (stood : Stood vs ns) : Operand (us ++ vs) rest e' := by
  have leads := h.leads.step step
  refine ⟨leads, fun n hn ↦ ?_⟩
  rcases nodes n hn with rfl | hn | hn
  · exact ⟨_, List.infix_refl _, leads.stands_operand⟩
  · exact h.stood.within (List.infix_append_left ..) n hn
  · exact stood.within (List.infix_append_right ..) n hn

/-! ### Steps -/

section

variable {t u : Token} {inner : List Token} {a b i : Expr}

/-- A binary operator and what it binds on its right are one step, where the operator binds tightly
enough. -/
theorem steps_binary {m : Nat} {o : Operator} (ho : operator? t = some o) (tight : m ≤ o.leftBinding)
    (rhs : Recurs (expression o.rightBinding) us rest b) :
    Steps (operators m) (t :: us) rest e (.binary (e.span.through b.span) o.op e b) := by
  intro s k a next near more
  have question : t.kind ≠ .punct .question := by
    intro hk
    simp [operator?, hk, punctOperator?] at ho
  exact operators_of_binary question ho tight (rhs t.span k near) more

/-- `?:` and its other value are one step, where operators as loose as a conditional may follow. -/
theorem steps_elvis {m : Nat} (ht : t.kind = .punct .question) (hu : u.kind = .punct .colon)
    (loose : m ≤ ternaryBinding) (other : Recurs (expression (ternaryBinding + 1)) us rest b) :
    Steps (operators m) (t :: u :: us) rest e (.elvis (e.span.through b.span) e b) :=
  fun _ k _ _ near more ↦ operators_of_elvis ht hu loose (other u.span k near) more

/-- A conditional is one step, from `?` to the end of its other value; the tokens between `?` and `:` are
read alone. -/
theorem steps_ternary {m : Nat} (ht : t.kind = .punct .question) (hu : u.kind = .punct .colon)
    (loose : m ≤ ternaryBinding) (some : ∀ v ∈ inner.head?, v.isPunct .colon = false)
    (nonempty : inner ≠ []) (chosen : Recurs (expression 0) inner (u :: (us ++ rest)) a)
    (other : Recurs (expression (ternaryBinding + 1)) us rest b) :
    Steps (operators m) (t :: (inner ++ u :: us)) rest e
      (.ternary (e.span.through b.span) e a b) := by
  intro s k a' next near more
  obtain ⟨v, vs, rfl⟩ := List.exists_cons_of_ne_nil nonempty
  rw [lastSpan_cons, lastSpan_append, lastSpan_cons] at more
  rw [List.cons_append, List.append_assoc, List.cons_append]
  exact operators_of_ternary ht hu loose (some v rfl) (chosen t.span _ (.cons u _ _))
    (other u.span k near) more

/-- An index in brackets is one step; its tokens are read alone. -/
theorem steps_index (ht : t.kind = .punct .openBracket) (hu : u.kind = .punct .closeBracket)
    (some : ∀ v ∈ inner.head?, v.isPunct .closeBracket = false) (nonempty : inner ≠ [])
    (index : Recurs (expression 0) inner (u :: rest) i) :
    Steps suffixes (t :: (inner ++ [u])) rest e (.index (e.span.through u.span) e i) := by
  intro s k a next near more
  obtain ⟨v, vs, rfl⟩ := List.exists_cons_of_ne_nil nonempty
  rw [lastSpan_cons, lastSpan_append, lastSpan_cons, lastSpan_nil] at more
  rw [List.cons_append, List.append_assoc, List.singleton_append]
  exact suffixes_of_index ht hu (some v rfl) (index t.span _ (.cons u _ _)) more

/-- A member and the call of it are one step. -/
theorem steps_arrow {stop : Span} (ht : t.kind = .punct .arrow ∨ t.kind = .punct .nullsafeArrow)
    (name : isMemberName u) (call : Recurs (callSuffix u.span) us rest stop) :
    Steps suffixes (t :: u :: us) rest e (.opaqueExpr (e.span.through stop)) :=
  fun _ k _ _ near more ↦ suffixes_of_arrow ht name (call u.span k near) more

theorem steps_member (ht : t.kind = .punct .doubleColon)
    (read : Recurs (member e.span) us rest e') : Steps suffixes (t :: us) rest e e' :=
  fun _ k _ _ near more ↦ suffixes_of_member ht (read t.span k near) more

/-- A call of what was read is one step. -/
theorem steps_call {es : List Expr} {stop : Span} (ht : t.kind = .punct .openParen)
    (read : Recurs arguments us rest (es, stop)) :
    Steps suffixes (t :: us) rest e (.opaqueExpr (e.span.through stop)) :=
  fun _ k _ _ near more ↦ suffixes_of_call ht (read t.span k near) more

end

/-! ### Where nothing goes on -/

theorem halts_suffixes (h : ∀ t ∈ rest.head?, endsOperand t) : Halts suffixes rest :=
  fun _ _ _ near ↦ suffixes_stays
    (near.forall_head h fun _ hk ↦ (endsExpression_of_semicolon hk).1)

/-- Operators halt in front of a token that is no operator, or none that binds as tightly as asked for.
-/
theorem halts_operators {min : Nat}
    (question : ∀ t ∈ rest.head?, t.kind = .punct .question → ternaryBinding < min)
    (operator : ∀ t ∈ rest.head?, ∀ o, operator? t = some o → o.leftBinding < min) :
    Halts (operators min) rest := by
  intro e s k near
  refine operators_stays (fun ahead ↦ ?_) (binary?_eq_none_iff.2 (near.forall_head operator ?_))
  · obtain ⟨t, ht, hk⟩ := (Option.any_eq_true _ _).1 (show k.head?.any _ = true from ahead)
    exact near.forall_head question (fun u hu hq ↦ by rw [hu] at hq; cases hq) t ht (beq_iff_eq.1 hk)
  · intro t hk o ho
    simp [operator?, hk, punctOperator?] at ho

/-! ### What was read is read again -/

/-- With fewer than `n` tokens ahead, what the parser of expressions reads it reads again, and every
expression in it stands alone. -/
structure Rereads (n : Nat) : Prop where
  expression : ∀ {c : Cursor} {min : Nat} {r : Read Expr c.size}, c.size < n →
    expression min c = .ok r → ∃ us, Took c us r.next ∧ Whole min us r.next.rest r.value ∧
      Halts (operators min) r.next.rest
  operators : ∀ {c : Cursor} {min : Nat} {front : List Token} {e : Expr} {r : Peeked Expr c.size},
    c.size < n → Whole min front c.rest e → operators min e c = .ok r → ∃ us, Took c us r.next ∧
      Whole min (front ++ us) r.next.rest r.value ∧ Halts (operators min) r.next.rest
  suffixes : ∀ {c : Cursor} {front : List Token} {e : Expr} {r : Peeked Expr c.size}, c.size < n →
    Operand front c.rest e → suffixes e c = .ok r → ∃ us, Took c us r.next ∧
      Operand (front ++ us) r.next.rest r.value ∧ Halts suffixes r.next.rest
  arguments : ∀ {c : Cursor} {r : Read (List Expr × Span) c.size}, c.size < n →
    arguments c = .ok r → ∃ us, Took c us r.next ∧ Recurs arguments us r.next.rest r.value ∧
      Stood us (Expr.listNodes r.value.1)
  items : ∀ {c : Cursor} {p : Punct} {r : Read (List Item × Span) c.size}, c.size < n →
    p = .closeParen ∨ p = .closeBracket → items p c = .ok r → ∃ us, Took c us r.next ∧
      Recurs (items p) us r.next.rest r.value ∧ Stood us (Expr.itemNodes r.value.1)

variable {c d : Cursor}

/-- What is reread below a bound is reread below each smaller one. -/
theorem Rereads.mono {m n : Nat} (h : Rereads n) (le : m ≤ n) : Rereads m where
  expression lt := h.expression (Nat.lt_of_lt_of_le lt le)
  operators lt := h.operators (Nat.lt_of_lt_of_le lt le)
  suffixes lt := h.suffixes (Nat.lt_of_lt_of_le lt le)
  arguments lt := h.arguments (Nat.lt_of_lt_of_le lt le)
  items lt := h.items (Nat.lt_of_lt_of_le lt le)

/-- The tokens that are read do not begin with one that is not ahead. -/
theorem Took.isPunct_head {p : Punct} (h : Took c us d) (some : us ≠ []) (none : c.atPunct p = false) :
    ∀ t ∈ us.head?, t.isPunct p = false := by
  intro t ht
  rw [← h.head? some] at ht
  rw [Token.isPunct, beq_eq_false_iff_ne]
  exact ne_of_atPunct none t ht

/-! ### Calls and members -/

/-- A call behind a name, or none, is read again from its tokens. -/
theorem reread_callSuffix (ih : Rereads c.size) {last : Span} {r : Peeked Span c.size}
    (h : callSuffix last c = .ok r) :
    ∃ us, Took c us r.next ∧ Recurs (callSuffix last) us r.next.rest r.value := by
  cases called_of_callSuffix h with
  | call took opens lt list value behind =>
    rw [value, behind]
    obtain ⟨us, took', recurs, -⟩ := ih.arguments lt list
    exact ⟨_, took.cons took', fun s k near ↦ callSuffix_of_call opens (recurs _ k near)⟩
  | nothing ahead value behind =>
    rw [value, behind]
    exact ⟨[], .refl c, fun s k near ↦ callSuffix_stays (near.atPunct_eq_false (by decide) ahead)⟩

/-- The name of a member and what it is called with. -/
theorem Accessed.reread {n : Nat} (ih : Rereads n) {start : Span} {a : Expr} {next : Cursor}
    (le : c.size ≤ n) (h : Accessed start c a next) : ∃ m us stop, Took c (m :: us) next ∧
      isMemberName m ∧ Recurs (callSuffix m.span) us next.rest stop ∧
      a = .opaqueExpr (start.through stop) := by
  cases h with
  | mk took lt name call value behind =>
    rw [value, behind]
    obtain ⟨us, took', recurs⟩ :=
      reread_callSuffix (ih.mono (Nat.le_of_lt (Nat.lt_of_lt_of_le lt le))) call
    exact ⟨_, us, _, took.cons took', name, recurs, rfl⟩

/-- A member is read again from its tokens, and it is opaque. -/
theorem reread_member {n : Nat} (ih : Rereads n) {start : Span} {r : Read Expr c.size}
    (le : c.size ≤ n) (h : member start c = .ok r) :
    ∃ us s, Took c us r.next ∧ Recurs (member start) us r.next.rest r.value ∧
      r.value = .opaqueExpr s := by
  obtain ⟨m, us, stop, took, name, recurs, same⟩ := (accessed_of_member h).reread ih le
  rw [same]
  exact ⟨_, _, took, fun s k near ↦ member_of_name name (recurs _ k near), rfl⟩

/-- What follows the tokens `front` was read from `c` to `next`: together they are an operand that does
not go on. -/
def ReadsOperand (front : List Token) (c next : Cursor) (e : Expr) : Prop :=
  ∃ us, Took c us next ∧ Operand (front ++ us) next.rest e ∧ Halts suffixes next.rest

theorem Operand.stays {front : List Token} (base : Operand front c.rest e)
    (ends : ∀ t ∈ c.rest.head?, endsOperand t) : ReadsOperand front c c e :=
  ⟨[], .refl c, by rwa [List.append_nil], halts_suffixes ends⟩

/-- Behind the tokens `vs` the operand `e'` goes on. -/
theorem Operand.goesOn (ih : Rereads c.size) {front vs : List Token} {ns : List Expr}
    (whole : Peeked Expr d.size) (base : Operand front c.rest e) (took : Took c vs d)
    (lt : d.size < c.size) (step : Steps suffixes vs d.rest e e')
    (nodes : ∀ n ∈ e'.nodes, n = e' ∨ n ∈ e.nodes ∨ n ∈ ns) (stood : Stood vs ns)
    (more : suffixes e' d = .ok whole) : ReadsOperand front c whole.next whole.value := by
  rw [took.rest] at base
  obtain ⟨us, took', operand, halts⟩ := ih.suffixes lt (base.step step nodes stood) more
  exact ⟨vs ++ us, took.trans took', by rwa [← List.append_assoc], halts⟩

theorem mem_nodes_opaqueExpr {s : Span} {n : Expr} (hn : n ∈ (Expr.opaqueExpr s).nodes) :
    n = .opaqueExpr s ∨ n ∈ e.nodes ∨ n ∈ ([] : List Expr) := .inl (List.mem_singleton.1 hn)

/-- What follows an operand is read again from its tokens, one suffix after the other. -/
theorem reread_suffixes (ih : Rereads c.size) {front : List Token} {r : Peeked Expr c.size}
    (base : Operand front c.rest e) (h : suffixes e c = .ok r) :
    ReadsOperand front c r.next r.value := by
  cases suffixed_of_suffixes h with
  | stays ends value behind =>
    rw [value, behind]
    exact base.stays ends
  | @index t x _ _ i whole took opens lt some index took' closes lt' more value behind =>
    rw [value, behind]
    obtain ⟨inner, tookIndex, spells, halts⟩ := ih.expression lt index
    have nonempty := tookIndex.ne_nil i.shorter
    have again := spells.recurs halts
    rw [took'.rest] at again
    refine base.goesOn ih whole (took.cons (tookIndex.trans took')) lt'
      (steps_index opens closes (tookIndex.isPunct_head nonempty some) nonempty again) ?_
      (spells.stood.between [t] [x]) more
    intro n hn
    rw [Expr.nodes, List.mem_cons, List.mem_append] at hn
    exact hn
  | @arrow _ _ _ _ whole took kind lt access lt' more value behind =>
    rw [value, behind]
    obtain ⟨m, us, stop, took', name, recurs, same⟩ := access.reread ih (Nat.le_of_lt lt)
    rw [same] at more
    exact base.goesOn ih whole (took.cons took') lt' (steps_arrow kind name recurs)
      (fun _ ↦ mem_nodes_opaqueExpr) (.nil _) more
  | @member _ _ m whole took kind lt access more value behind =>
    rw [value, behind]
    obtain ⟨us, s, took', recurs, same⟩ := reread_member ih (Nat.le_of_lt lt) access
    refine base.goesOn ih whole (took.cons took') (Nat.lt_trans m.shorter lt)
      (steps_member kind recurs) ?_ (.nil _) more
    rw [same]
    exact fun _ ↦ mem_nodes_opaqueExpr
  | @call _ _ args whole took opens lt list more value behind =>
    rw [value, behind]
    obtain ⟨us, took', recurs, -⟩ := ih.arguments lt list
    exact base.goesOn ih whole (took.cons took') (Nat.lt_trans args.shorter lt)
      (steps_call opens recurs) (fun _ ↦ mem_nodes_opaqueExpr) (.nil _) more

/-! ### Operators -/

/-- What follows the tokens `front` was read from `c` to `next`: together they are an expression that
does not go on. -/
def ReadsWhole (min : Nat) (front : List Token) (c next : Cursor) (e : Expr) : Prop :=
  ∃ us, Took c us next ∧ Whole min (front ++ us) next.rest e ∧ Halts (operators min) next.rest

theorem Whole.stays {min : Nat} {front : List Token} (base : Whole min front c.rest e)
    (halts : Halts (operators min) c.rest) : ReadsWhole min front c c e :=
  ⟨[], .refl c, by rwa [List.append_nil], halts⟩

/-- Behind the tokens `vs` the expression `e'` goes on. -/
theorem Whole.goesOn (ih : Rereads c.size) {min : Nat} {front vs : List Token} {ns : List Expr}
    (whole : Peeked Expr d.size) (base : Whole min front c.rest e) (took : Took c vs d)
    (lt : d.size < c.size) (step : ∀ m ≤ min, Steps (operators m) vs d.rest e e')
    (nodes : e'.nodes = e' :: (e.nodes ++ ns)) (stood : Stood vs ns)
    (more : operators min e' d = .ok whole) : ReadsWhole min front c whole.next whole.value := by
  rw [took.rest] at base
  obtain ⟨us, took', spells, halts⟩ := ih.operators lt (base.step step nodes stood) more
  exact ⟨vs ++ us, took.trans took', by rwa [← List.append_assoc], halts⟩

/-- The operators behind an operand are read again from their tokens. The expression so far was read for
a bound of its own; what follows is read for `min`. -/
theorem reread_operators (ih : Rereads c.size) {min : Nat} {front : List Token}
    {r : Peeked Expr c.size} (base : Whole min front c.rest e) (h : operators min e c = .ok r) :
    ReadsWhole min front c r.next r.value := by
  cases operated_of_operators h with
  | stays question operator value behind =>
    rw [value, behind]
    exact base.stays (halts_operators question operator)
  | @elvis t u _ _ b whole took question loose took' colon lt right more value behind =>
    rw [value, behind]
    obtain ⟨us, tookRight, spells, halts⟩ := ih.expression lt right
    exact base.goesOn ih whole (took.cons (took'.cons tookRight)) (Nat.lt_trans b.shorter lt)
      (fun m hm ↦ steps_elvis question colon (Nat.le_trans hm loose) (spells.recurs halts)) rfl
      (spells.stood.within ⟨[t, u], [], by simp⟩) more
  | @ternary t u _ _ a b whole took question loose lt some middle took' colon lt' right more value
      behind =>
    rw [value, behind]
    obtain ⟨inner, tookMiddle, spells, halts⟩ := ih.expression lt middle
    obtain ⟨us, tookRight, spells', halts'⟩ := ih.expression lt' right
    have nonempty := tookMiddle.ne_nil a.shorter
    have again := spells.recurs halts
    rw [(took'.cons tookRight).rest] at again
    have parts : Stood (t :: (inner ++ u :: us)) (a.value.nodes ++ b.value.nodes) :=
      (spells.stood.between [t] (u :: us)).append
        (spells'.stood.within ⟨t :: (inner ++ [u]), [], by simp⟩)
    exact base.goesOn ih whole (took.cons (tookMiddle.trans (took'.cons tookRight)))
      (Nat.lt_trans b.shorter lt')
      (fun m hm ↦ steps_ternary question colon (Nat.le_trans hm loose)
        (tookMiddle.isPunct_head nonempty some) nonempty again (spells'.recurs halts'))
      (by rw [Expr.nodes, List.append_assoc]) parts more
  | @binary t _ _ b whole took sign tight lt right more value behind =>
    rw [value, behind]
    obtain ⟨us, tookRight, spells, halts⟩ := ih.expression lt right
    exact base.goesOn ih whole (took.cons tookRight) (Nat.lt_trans b.shorter lt)
      (fun m hm ↦ steps_binary sign (Nat.le_trans hm tight) (spells.recurs halts)) rfl
      (spells.stood.within ⟨[t], [], by simp⟩) more

/-! ### Operands -/

/-- A word that is a literal in front of a call is one elsewhere. -/
theorem wordLiteral?_of_eq_some {word : String} {b : Bool} {s : Span}
    (h : wordLiteral? word b s = some e) : wordLiteral? word false s = some e := by
  unfold wordLiteral? at h ⊢
  split at h <;> first | exact h | cases h

/-- What begins with a name is read again from its tokens, and the expressions inside it stand alone in
them. -/
theorem reread_named (ih : Rereads c.size) {name : String} {t : Token} {r : Peeked Expr c.size}
    (h : named name t c = .ok r) : ∃ us, Took c us r.next ∧
      Recurs (named name t) us r.next.rest r.value ∧ Stood us r.value.nodes.tail := by
  -- A name is read by the token behind it, which is among those read again.
  have ahead : ∀ {o : Token} {d : Cursor} {s : Span} {us : List Token}, Names name t c →
      Took c [o] d → Names name t ⟨s, o :: us⟩ := fun names took ↦
    names.of_head? (head?_of_took took).symm
  cases named_cases h with
  | literal word behind =>
    rw [behind]
    refine ⟨[], .refl c, fun s k near ↦ named_of_word ?_, ?_⟩
    · rcases near.atPunct (c := c) (s := s) (p := .openParen) (by decide) with same | other
      · rw [List.nil_append, same]
        exact word
      · rw [List.nil_append, other]
        exact wordLiteral?_of_eq_some word
    · rw [nodes_of_isAtom (isAtom_of_wordLiteral word).1]
      exact .nil _
  | creation new access =>
    obtain ⟨m, us, stop, took, isName, recurs, same⟩ := access.reread ih (Nat.le_refl _)
    rw [same]
    exact ⟨_, took, fun s k near ↦ named_of_creation new (creation_of_name isName (recurs _ k near)),
      .nil _⟩
  | @array o _ _ names word took opens lt elements value behind =>
    rw [value, behind]
    obtain ⟨us, took', recurs, stood⟩ := ih.items lt (.inl rfl) elements
    exact ⟨_, took.cons took', fun s k near ↦
      named_of_array (ahead names took) word opens (recurs _ k near),
      stood.within ⟨[o], [], by simp⟩⟩
  | @call o _ _ names word took opens lt list value behind =>
    rw [value, behind]
    obtain ⟨us, took', recurs, stood⟩ := ih.arguments lt list
    exact ⟨_, took.cons took', fun s k near ↦
      named_of_arguments (ahead names took) word opens (recurs _ k near),
      stood.within ⟨[o], [], by simp⟩⟩
  | member names took kind lt access value behind =>
    rw [value, behind]
    obtain ⟨us, s, took', recurs, same⟩ := reread_member ih (Nat.le_of_lt lt) access
    refine ⟨_, took.cons took', fun s k near ↦
      named_of_member (ahead names took) kind (recurs _ k near), ?_⟩
    rw [same]
    exact .nil _
  | const names call owner value behind =>
    rw [value, behind]
    refine ⟨[], .refl c, fun s k near ↦ ?_, .nil _⟩
    have call' := near.atPunct_eq_false (c := c) (s := s) (by decide) call
    refine named_stays { names with literal := ?_ } call' (near.atPunct_eq_false (by decide) owner)
    rw [List.nil_append, call', ← call]
    exact names.literal

/-- An operand is read again; one that begins with a parenthesis is no cast. -/
theorem reread_primary (ih : Rereads c.size) {r : Read Expr c.size} (h : primary c = .ok r) :
    ∃ us, Took c us r.next ∧ Recurs primary us r.next.rest r.value ∧ Stood us r.value.nodes.tail ∧
      ∀ t ∈ us.head?, t.kind = .punct .openParen → 3 ≤ us.length := by
  have other : ∀ {t : Token} {us : List Token}, t.kind ≠ .punct .openParen →
      ∀ u ∈ (t :: us).head?, u.kind = .punct .openParen → 3 ≤ (t :: us).length := by
    intro t us ne u hu hk
    obtain rfl := Option.some.inj hu
    exact absurd hk ne
  cases primary_cases h with
  | literal took literal =>
    refine ⟨_, took, fun s k _ ↦ primary_of_literal literal, ?_, other fun hk ↦ ?_⟩
    · rw [nodes_of_isAtom (isAtom_of_literal literal).2.2.1]
      exact .nil _
    · rw [literal?, hk] at literal
      cases literal
  | @group o x _ a took opens lt inner took' closes value =>
    rw [value]
    obtain ⟨us, tookInner, spells, halts⟩ := ih.expression lt inner
    have again := spells.recurs halts
    rw [took'.rest] at again
    refine ⟨_, took.cons (tookInner.trans took'), fun s k _ ↦ ?_, ?_, fun _ _ _ ↦ ?_⟩
    · rw [List.cons_append, List.append_assoc, lastSpan_cons, lastSpan_append]
      exact primary_of_group (s := s) opens closes (again o.span _ (.cons x _ k))
    · rw [nodes_withSpan]
      exact (show Stood us a.value.nodes.tail from fun n hn ↦
        spells.stood n (List.mem_of_mem_tail hn)).between [o] [x]
    · have := List.length_pos_iff.2 (tookInner.ne_nil a.shorter)
      simp only [List.length_cons, List.length_append, List.length_nil]
      omega
  | @array o _ _ took opens lt elements value behind =>
    rw [value, behind]
    obtain ⟨us, took', recurs, stood⟩ := ih.items lt (.inr rfl) elements
    exact ⟨_, took.cons took', fun s k near ↦ primary_of_items opens (recurs _ k near),
      stood.within ⟨[o], [], by simp⟩, other (by simp [opens])⟩
  | @name _ t _ _ took kind lt rest value behind =>
    rw [value, behind]
    obtain ⟨us, took', recurs, stood⟩ := reread_named (ih.mono (Nat.le_of_lt lt)) rest
    exact ⟨_, took.cons took', fun s k near ↦ primary_of_ident kind (recurs _ k near),
      stood.within ⟨[t], [], by simp⟩, other (by simp [kind])⟩

/-- Whether there is a cast, the first three tokens tell. -/
theorem cast?_eq_none_of_append {s s' : Span} {t : Token}
    (long : t.kind = .punct .openParen → 3 ≤ (t :: us).length)
    (h : cast? ⟨s, t :: us ++ rest⟩ = none) (k : List Token) : cast? ⟨s', t :: us ++ k⟩ = none := by
  by_cases paren : t.kind = .punct .openParen
  · obtain ⟨w, d, vs, rfl⟩ : ∃ w d vs, us = w :: d :: vs := by
      match us, long paren with
      | w :: d :: vs, _ => exact ⟨w, d, vs, rfl⟩
    unfold cast? at h ⊢
    dsimp only [List.cons_append] at h ⊢
    split at h
    · rename_i marks
      rw [if_pos marks]
      rw [Option.map_eq_none_iff] at h ⊢
      exact h
    · rename_i marks
      rw [if_neg marks]
  · exact cast?_eq_none (by simpa [Token.isPunct] using paren)

/-- An operand with its prefix operators is read again from its tokens. -/
theorem reread_unary (ih : Rereads c.size) {r : Read Expr c.size} (h : unary c = .ok r) :
    ∃ us, Took c us r.next ∧ Recurs unary us r.next.rest r.value ∧ Stood us r.value.nodes := by
  cases unary_cases h with
  | @sign t op _ a took sign lt inner value behind =>
    rw [value, behind]
    obtain ⟨us, took', spells, halts⟩ := ih.expression lt inner
    have recurs : Recurs unary (t :: us) a.next.rest (.unary (t.span.through a.value.span) op a.value) :=
      fun s k near ↦ unary_of_prefixed sign (spells.recurs halts _ k near)
    exact ⟨_, took.cons took', recurs, .cons recurs.stands
      (spells.stood.within ⟨[t], [], by simp⟩)⟩
  | @cast o w x kind _ a took opens word closes lt inner value behind =>
    rw [value, behind]
    obtain ⟨us, took', spells, halts⟩ := ih.expression lt inner
    have recurs : Recurs unary (o :: w :: x :: us) a.next.rest
        (.cast (o.span.through a.value.span) kind a.value) := fun s k near ↦
      unary_of_cast opens word closes (spells.recurs halts _ k near)
    exact ⟨_, took.trans took', recurs, .cons recurs.stands
      (spells.stood.within ⟨[o, w, x], [], by simp⟩)⟩
  | @plain t base whole head noSign noMark noCast first more value behind =>
    rw [value, behind]
    obtain ⟨us, took, recurs, stood, long⟩ := reread_primary ih first
    obtain ⟨u, us, rfl⟩ := List.exists_cons_of_ne_nil (took.ne_nil base.shorter)
    obtain rfl : t = u := Option.some.inj (head.symm.trans (head?_of_took took))
    have leads : Leads unary suffixes (t :: us) base.next.rest base.value := by
      intro s k a next near more
      have alone : cast? ⟨c.last, t :: us ++ base.next.rest⟩ = none := took.rest ▸ noCast
      exact unary_of_operand ⟨noSign, noMark⟩ (cast?_eq_none_of_append (long _ rfl) alone k)
        (recurs s k near) more
    have operand : Operand (t :: us) base.next.rest base.value := by
      refine ⟨leads, ?_⟩
      rw [nodes_eq_cons]
      exact .cons leads.stands_operand stood
    obtain ⟨vs, took', spells, halts⟩ := ih.suffixes base.shorter operand more
    exact ⟨_, took.trans took', spells.leads.recurs halts, spells.stood⟩

/-- An expression that was read is whole in its tokens, and no operator goes on behind it. -/
theorem reread_expression (ih : Rereads c.size) {min : Nat} {r : Read Expr c.size}
    (h : expression min c = .ok r) : ∃ us, Took c us r.next ∧ Whole min us r.next.rest r.value ∧
      Halts (operators min) r.next.rest := by
  obtain ⟨operand, whole, first, more, value, behind⟩ := exists_of_expression h
  rw [value, behind]
  obtain ⟨us, took, recurs, stood⟩ := reread_unary ih first
  have base : Whole min us operand.next.rest operand.value :=
    ⟨fun _ _ s k _ _ near more ↦ expression_of_unary (recurs s k near) more, stood⟩
  obtain ⟨vs, took', spells, halts⟩ := ih.operators operand.shorter base more
  exact ⟨_, took.trans took', spells, halts⟩

/-! ### Lists -/

/-- Arguments are read again from their tokens up to the closing parenthesis, and they stand in these. -/
theorem reread_arguments (ih : Rereads c.size) {r : Read (List Expr × Span) c.size}
    (h : arguments c = .ok r) : ∃ us, Took c us r.next ∧
      Recurs arguments us r.next.rest r.value ∧ Stood us (Expr.listNodes r.value.1) := by
  cases listed_of_arguments h with
  | close took closes value =>
    rw [value]
    exact ⟨_, took, fun s k _ ↦ arguments_of_close closes, .nil _⟩
  | @last x a begins inner took' closes value =>
    rw [value]
    obtain ⟨us, took, spells, halts⟩ := reread_expression ih inner
    obtain ⟨t, us, rfl⟩ := List.exists_cons_of_ne_nil (took.ne_nil a.shorter)
    have again := spells.recurs halts
    rw [took'.rest] at again
    refine ⟨_, took.trans took', fun s k _ ↦ ?_, ?_⟩
    · rw [List.append_assoc, lastSpan_append]
      exact arguments_of_last (begins t (head?_of_took took)) (again s _ (.cons x _ k)) closes
    · show Stood _ (a.value.nodes ++ [])
      rw [List.append_nil]
      exact spells.stood.within (List.infix_append_left ..)
  | @more x a _ more begins inner took' comma lt others value behind =>
    rw [value, behind]
    obtain ⟨us, took, spells, halts⟩ := reread_expression ih inner
    obtain ⟨t, us, rfl⟩ := List.exists_cons_of_ne_nil (took.ne_nil a.shorter)
    obtain ⟨vs, tookMore, recurs, stood⟩ := ih.arguments lt others
    have again := spells.recurs halts
    rw [(took'.cons tookMore).rest] at again
    refine ⟨_, took.trans (took'.cons tookMore), fun s k near ↦ ?_,
      (spells.stood.within (List.infix_append_left ..)).append
        (stood.within ⟨t :: us ++ [x], [], by simp⟩)⟩
    rw [List.append_assoc, lastSpan_append]
    exact arguments_of_comma (begins t (head?_of_took took)) (again s _ (.cons x _ (vs ++ k))) comma
      (recurs _ k near)

/-- An element of an array is read again from its tokens wherever the same token follows. -/
theorem reread_item (ih : Rereads c.size) {r : Read Item c.size} (h : item c = .ok r) :
    ∃ us, Took c us r.next ∧ Stood us (Expr.itemNodes [r.value]) ∧
      ∀ s k, k.head? = r.next.rest.head? → Yields (item ⟨s, us ++ k⟩) r.value ⟨lastSpan s us, k⟩ := by
  cases element_of_item h with
  | @value a inner arrow value behind =>
    rw [value, behind]
    obtain ⟨us, took, spells, halts⟩ := reread_expression ih inner
    refine ⟨us, took, ?_, fun s k heads ↦ item_of_value (spells.recurs halts s k (.inl heads)) ?_⟩
    · show Stood _ (a.value.nodes ++ [])
      rw [List.append_nil]
      exact spells.stood
    · rw [Cursor.atPunct_of_head? (c := a.next) heads]
      exact arrow
  | @keyed x a _ b inner took' arrow lt right value behind =>
    rw [value, behind]
    obtain ⟨us, took, spells, halts⟩ := reread_expression ih inner
    obtain ⟨vs, tookRight, spells', halts'⟩ := ih.expression lt right
    have again := spells.recurs halts
    rw [(took'.cons tookRight).rest] at again
    refine ⟨_, took.trans (took'.cons tookRight), ?_, fun s k heads ↦ ?_⟩
    · show Stood _ (a.value.nodes ++ b.value.nodes ++ [])
      rw [List.append_nil]
      exact (spells.stood.within (List.infix_append_left ..)).append
        (spells'.stood.within ⟨us ++ [x], [], by simp⟩)
    · rw [List.append_assoc, lastSpan_append]
      exact item_of_keyed (again s _ (.cons x _ (vs ++ k))) arrow
        (spells'.recurs halts' _ k (.inl heads))

/-- The elements of an array are read again from their tokens up to the closing bracket, and they stand
in these. -/
theorem reread_items (ih : Rereads c.size) {p : Punct} (hp : p = .closeParen ∨ p = .closeBracket)
    {r : Read (List Item × Span) c.size} (h : items p c = .ok r) : ∃ us, Took c us r.next ∧
      Recurs (items p) us r.next.rest r.value ∧ Stood us (Expr.itemNodes r.value.1) := by
  cases listed_of_items h with
  | close took closes value =>
    rw [value]
    exact ⟨_, took, fun s k _ ↦ items_of_close closes, .nil _⟩
  | @last x a begins inner took' closes value =>
    rw [value]
    obtain ⟨us, took, stood, again⟩ := reread_item ih inner
    obtain ⟨t, us, rfl⟩ := List.exists_cons_of_ne_nil (took.ne_nil a.shorter)
    rw [took'.rest] at again
    refine ⟨_, took.trans took', fun s k _ ↦ ?_, stood.within (List.infix_append_left ..)⟩
    rw [List.append_assoc, lastSpan_append]
    exact items_of_last (begins t (head?_of_took took)) (again s (x :: k) rfl) closes
      (by rcases hp with rfl | rfl <;> decide)
  | @more x a _ more begins inner took' comma lt others value behind =>
    rw [value, behind]
    obtain ⟨us, took, stood, again⟩ := reread_item ih inner
    obtain ⟨t, us, rfl⟩ := List.exists_cons_of_ne_nil (took.ne_nil a.shorter)
    obtain ⟨vs, tookMore, recurs, stood'⟩ := ih.items lt hp others
    rw [(took'.cons tookMore).rest] at again
    refine ⟨_, took.trans (took'.cons tookMore), fun s k near ↦ ?_, ?_⟩
    · rw [List.append_assoc, lastSpan_append]
      exact items_of_comma (begins t (head?_of_took took)) (again s (x :: (vs ++ k)) rfl) comma
        (recurs _ k near)
    · rw [itemNodes_cons]
      exact (stood.within (List.infix_append_left ..)).append
        (stood'.within ⟨t :: us ++ [x], [], by simp⟩)

/-- What the parser of expressions reads it reads again. -/
theorem rereads (n : Nat) : Rereads n := by
  induction n with
  | zero =>
    exact ⟨fun lt ↦ absurd lt (Nat.not_lt_zero _), fun lt ↦ absurd lt (Nat.not_lt_zero _),
      fun lt ↦ absurd lt (Nat.not_lt_zero _), fun lt ↦ absurd lt (Nat.not_lt_zero _),
      fun lt ↦ absurd lt (Nat.not_lt_zero _)⟩
  | succ n ih =>
    have below : ∀ {c : Cursor}, c.size < n + 1 → Rereads c.size := fun lt ↦
      ih.mono (Nat.le_of_lt_succ lt)
    exact {
      expression := fun lt h ↦ reread_expression (below lt) h
      operators := fun lt base h ↦ reread_operators (below lt) base h
      suffixes := fun lt base h ↦ reread_suffixes (below lt) base h
      arguments := fun lt h ↦ reread_arguments (below lt) h
      items := fun lt hp h ↦ reread_items (below lt) hp h }

/-! ### Every expression stands alone -/

/-- In the tokens of an expression, that expression and all inside it stand. -/
theorem stood_of_asked (h : Asked us rest e) : Stood us e.nodes := by
  obtain ⟨shorter, read⟩ := h default
  obtain ⟨vs, took, spells, -⟩ := reread_expression (rereads _) read
  obtain rfl : us = vs := List.append_cancel_right took.rest
  exact spells.stood

/-- The expression stands alone in some of the tokens. They do not begin in the middle of a short opening
tag: they stand behind a token that is no opening tag, or do not begin with the word of that tag. -/
def Alone (ts : List Token) (n : Expr) : Prop :=
  ∃ as us bs, ts = as ++ (us ++ bs) ∧ Stands us n ∧
    ((∀ u ∈ us.head?, u.kind ≠ .ident "echo") ∨ ∃ front t, as = front ++ [t] ∧ t.kind ≠ .openTag)

/-- What is alone in tokens is so with others in front. -/
theorem Alone.append {ts : List Token} {n : Expr} (h : Alone ts n) (front : List Token) :
    Alone (front ++ ts) n := by
  obtain ⟨as, us, bs, rfl, stands, lead⟩ := h
  refine ⟨front ++ as, us, bs, by simp, stands, lead.imp_right ?_⟩
  rintro ⟨before, t, rfl, script⟩
  exact ⟨front ++ before, t, by simp, script⟩

/-- What stands alone in the tokens of an expression stands alone in a row of tokens that they begin, if
they do so where an expression may begin. -/
theorem Stood.alone {ns : List Expr} {ts : List Token} {n : Expr} (h : Stood us ns)
    (closed : Enclosed us) (word : ∀ u ∈ us.head?, u.kind ≠ .ident "echo") (mem : n ∈ ns) :
    Alone (us ++ ts) n := by
  obtain ⟨vs, ⟨a, b, rfl⟩, stands⟩ := h n mem
  refine ⟨a, vs, b ++ ts, by simp, stands, ?_⟩
  rcases List.eq_nil_or_concat a with rfl | ⟨front, t, rfl⟩
  · refine .inl fun u hu ↦ word u ?_
    obtain ⟨vs, rfl⟩ := List.head?_eq_some_iff.1 hu
    rfl
  · exact .inr ⟨front, t, List.concat_eq_append, (closed.ne_openTag (by simp)).1⟩

/-- What stands in the tokens of an expression is alone in the script, in which a token that is no
opening tag comes before these. -/
theorem Stood.alone_behind {ns : List Expr} {ts : List Token} {t : Token} {n : Expr} (h : Stood us ns)
    (closed : Enclosed us) (script : t.kind ≠ .openTag) (mem : n ∈ ns) :
    Alone (t :: (us ++ ts)) n := by
  obtain ⟨vs, ⟨a, b, rfl⟩, stands⟩ := h n mem
  refine ⟨t :: a, vs, b ++ ts, by simp, stands, .inr ?_⟩
  rcases List.eq_nil_or_concat a with rfl | ⟨front, u, rfl⟩
  · exact ⟨[], t, rfl, script⟩
  · exact ⟨t :: front, u, by simp, (closed.ne_openTag (by simp)).1⟩

/-- Every expression of a script stands alone in some of its tokens. -/
theorem Holds.alone {ts : List Token} {rs : List Root} (h : Holds rest ts rs) {n : Expr}
    (mem : n ∈ Root.nodes rs) : Alone ts n := by
  obtain ⟨r, here, inside⟩ := List.mem_flatMap.1 mem
  induction h with
  | nil => cases here
  | token t _ ih => exact (ih (List.mem_flatMap.2 ⟨r, here, inside⟩) here).append [t]
  | @first us ts _ _ spells asked word _ ih =>
    rcases List.mem_cons.1 here with rfl | here
    · exact (stood_of_asked asked).alone spells.enclosed word inside
    · exact (ih (List.mem_flatMap.2 ⟨r, here, inside⟩) here).append us
  | @behind t us ts _ _ lead spells asked _ _ ih =>
    rcases List.mem_cons.1 here with rfl | here
    · exact (stood_of_asked asked).alone_behind spells.enclosed lead inside
    · exact (ih (List.mem_flatMap.2 ⟨r, here, inside⟩) here).append (t :: us)

/-- The tokens in which an expression stands alone spell it. -/
theorem Stands.spells {t : Token} (h : Stands us e) (semicolon : t.kind = .punct .semicolon) :
    Spells [t] us (.expr e) := by
  obtain ⟨_, read⟩ := h t [] semicolon default
  obtain ⟨vs, took, spells⟩ := spelled read
  obtain rfl : us = vs := List.append_cancel_right took.rest
  exact spells

end ConfigScript.Script
