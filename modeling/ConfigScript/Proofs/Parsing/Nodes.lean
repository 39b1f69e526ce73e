import ConfigScript.Proofs.Parsing.Spelling

/-!
# Where the parts of an expression stand

The tokens of an expression stand one behind the other (`Covers`). So an expression spans the tokens
that spell it, its parts lie within, each one behind or within those before it (`Spells.spans`), and each
is spelled by some of the tokens (`Spells.inside`). The first two arguments of a call stand behind its
parenthesis and behind a comma (`Spells.hasArgs_of_call`).
-/

namespace ConfigScript.Script

/-! ### Tokens in a row -/

/-- Tokens that stand one behind the other, from byte `lo` to byte `hi`. -/
inductive Covers : Nat → Nat → List Token → Prop
  | single {lo hi : Nat} {t : Token} (start : t.span.start = lo) (stop : t.span.stop = hi)
      (some : lo < hi) : Covers lo hi [t]
  | cons {lo lo' hi : Nat} {t : Token} {ts : List Token} (start : t.span.start = lo)
      (some : lo < t.span.stop) (behind : t.span.stop ≤ lo') (more : Covers lo' hi ts) :
      Covers lo hi (t :: ts)

namespace Covers

variable {lo hi : Nat} {t : Token} {ts as bs : List Token}

/-- A row of tokens is not empty. -/
theorem lt (h : Covers lo hi ts) : lo < hi := by
  induction h with
  | single _ _ some => exact some
  | cons _ some behind _ ih => omega

/-- The last of tokens in a row ends where the row does. -/
theorem lastSpan (h : Covers lo hi ts) (s : Span) : (lastSpan s ts).stop = hi := by
  induction h generalizing s with
  | single _ stop => exact stop
  | cons _ _ _ _ ih => exact ih _

/-- The first of tokens in a row begins where the row does and ends within it. -/
theorem head (h : Covers lo hi (t :: ts)) : t.span.start = lo ∧ lo < t.span.stop ∧ t.span.stop ≤ hi := by
  cases h with
  | single start stop some => omega
  | cons start some behind more =>
    have := more.lt
    omega

/-- Behind the first token of a row, the others are in a row too. -/
theorem uncons (h : Covers lo hi (t :: ts)) (some : ts ≠ []) :
    ∃ lo', lo < lo' ∧ t.span.stop ≤ lo' ∧ Covers lo' hi ts := by
  cases h with
  | single => exact absurd rfl some
  | cons start here behind more => exact ⟨_, by omega, behind, more⟩

/-- Tokens that others stand in front of. -/
theorem tail (as : List Token) (h : Covers lo hi (t :: (as ++ ts))) (some : ts ≠ []) :
    ∃ lo', lo < lo' ∧ Covers lo' hi ts := by
  induction as generalizing lo t with
  | nil =>
    obtain ⟨lo', lt, -, more⟩ := h.uncons some
    exact ⟨lo', lt, more⟩
  | cons u as ih =>
    obtain ⟨lo₁, lt, -, more⟩ := h.uncons (by simp)
    obtain ⟨lo', lt', more⟩ := ih more
    exact ⟨lo', Nat.lt_trans lt lt', more⟩

/-- A row of tokens is two rows wherever it is cut, the second not before the end of the first. -/
theorem split (h : Covers lo hi (as ++ bs)) (ha : as ≠ []) (hb : bs ≠ []) :
    ∃ m n, Covers lo m as ∧ m ≤ n ∧ Covers n hi bs := by
  induction as generalizing lo with
  | nil => exact absurd rfl ha
  | cons t as ih =>
    obtain ⟨start, some, -⟩ := h.head
    obtain ⟨lo', -, behind, more⟩ := h.uncons (by simp [hb])
    cases as with
    | nil => exact ⟨_, _, .single start rfl some, behind, more⟩
    | cons u as =>
      obtain ⟨m, n, front, le, back⟩ := ih more (by simp)
      exact ⟨m, n, .cons start some behind front, le, back⟩

/-- In front of the last token of a row, the others are in a row too. -/
theorem unsnoc (h : Covers lo hi (ts ++ [t])) (some : ts ≠ []) :
    t.span.stop = hi ∧ ∃ hi', hi' < hi ∧ Covers lo hi' ts := by
  obtain ⟨m, n, front, le, back⟩ := h.split some (by simp)
  cases back with
  | single _ stop lt => exact ⟨stop, m, by omega, front⟩
  | cons _ _ _ more => cases more

/-- A part in brackets. -/
theorem group {o c : Token} (h : Covers lo hi (o :: (ts ++ [c]))) (some : ts ≠ []) :
    c.span.stop = hi ∧ ∃ lo' hi', lo < lo' ∧ hi' < hi ∧ Covers lo' hi' ts := by
  obtain ⟨lo', lt, -, inner⟩ := h.uncons (by simp)
  obtain ⟨stop, hi', lt', inner⟩ := inner.unsnoc some
  exact ⟨stop, lo', hi', lt, lt', inner⟩

/-- Two parts with tokens between them. -/
theorem between {us : List Token} (h : Covers lo hi (as ++ us ++ bs)) (ha : as ≠ []) (hu : us ≠ [])
    (hb : bs ≠ []) :
    ∃ m n, Covers lo m as ∧ m < n ∧ Covers n hi bs := by
  rw [List.append_assoc] at h
  obtain ⟨m, n, front, le, back⟩ := h.split ha (by simp [hu])
  obtain ⟨m', n', middle, le', back⟩ := back.split hu hb
  have := middle.lt
  exact ⟨m, n', front, by omega, back⟩

end Covers

/-- Tokens that stand one behind the other cover what they span. -/
theorem exists_covers {ts : List Token} (some : ∀ t ∈ ts, t.span.start < t.span.stop)
    (apart : ts.Pairwise fun t u ↦ t.span.stop ≤ u.span.start) (ne : ts ≠ []) :
    ∃ lo hi, Covers lo hi ts := by
  induction ts with
  | nil => exact absurd rfl ne
  | cons t ts ih =>
    rw [List.pairwise_cons] at apart
    have here := some t (by simp)
    cases ts with
    | nil => exact ⟨_, _, .single rfl rfl here⟩
    | cons u ts =>
      obtain ⟨lo, hi, more⟩ := ih (fun v hv ↦ some v (by simp_all)) apart.2 (by simp)
      have behind := apart.1 u (by simp)
      rw [more.head.1] at behind
      exact ⟨_, hi, .cons rfl here behind more⟩

/-! ### Parts -/

/-- The expressions that a spelled form holds. -/
def Form.nodes : Form → List Expr
  | .expr e => e.nodes
  | .args es _ => Expr.listNodes es
  | .items is _ => Expr.itemNodes is
  | .item i => Expr.itemNodes [i]

/-- Of two expressions the second one stands behind the first one or within it, and elsewhere. -/
structure Follows (m n : Expr) : Prop where
  ne : m.span ≠ n.span
  place : m.span.stop ≤ n.span.start ∨ m.span.start ≤ n.span.start ∧ n.span.stop ≤ m.span.stop

/-- An expression that starts where another stops, or later, follows it. -/
theorem Follows.of_le {m n : Expr} (h : m.span.stop ≤ n.span.start)
    (some : n.span.start < n.span.stop) : Follows m n where
  ne same := by
    rw [same] at h
    omega
  place := .inl h

/-- Expressions from byte `lo` to byte `hi`, parents first. -/
structure Nested (lo hi : Nat) (ns : List Expr) : Prop where
  within : ∀ n ∈ ns, lo ≤ n.span.start ∧ n.span.start < n.span.stop ∧ n.span.stop ≤ hi
  apart : ns.Pairwise Follows

/-- Expressions inside one that reaches from byte `lo` to byte `hi`. -/
structure Parts (lo hi : Nat) (ns : List Expr) : Prop extends Nested lo hi ns where
  proper : ∀ n ∈ ns, lo < n.span.start ∨ n.span.stop < hi

namespace Nested

variable {lo hi lo' hi' : Nat} {ns ms : List Expr}

theorem nil : Nested lo hi [] := ⟨by simp, .nil⟩

/-- Expressions nested within bounds are so within wider ones. -/
theorem mono (h : Nested lo' hi' ns) (le : lo ≤ lo') (le' : hi' ≤ hi) : Nested lo hi ns where
  within n hn := by
    have := h.within n hn
    omega
  apart := h.apart

/-- Expressions nested within bounds are so with those of bounds that come behind. -/
theorem append (h : Nested lo hi ns) (h' : Nested lo' hi' ms) (le : hi ≤ lo') (le₁ : lo ≤ lo')
    (le₂ : hi ≤ hi') : Nested lo hi' (ns ++ ms) where
  within n hn := by
    rcases List.mem_append.1 hn with hn | hn
    · have := h.within n hn
      omega
    · have := h'.within n hn
      omega
  apart := by
    refine List.pairwise_append.2 ⟨h.apart, h'.apart, fun m hm n hn ↦ .of_le ?_ ?_⟩
    · have := h.within m hm
      have := h'.within n hn
      omega
    · exact (h'.within n hn).2.1

/-- Expressions nested within bounds are parts within bounds wider on one side. -/
theorem parts (h : Nested lo' hi' ns) (le : lo ≤ lo') (le' : hi' ≤ hi)
    (lt : lo < lo' ∨ hi' < hi) : Parts lo hi ns where
  toNested := h.mono le le'
  proper n hn := by
    have := h.within n hn
    omega

end Nested

namespace Parts

variable {lo hi : Nat} {ns ms : List Expr}

theorem nil : Parts lo hi [] := ⟨.nil, by simp⟩

/-- Parts are so together if the second ones stand behind the first. -/
theorem append (h : Parts lo hi ns) (h' : Parts lo hi ms)
    (apart : ∀ m ∈ ns, ∀ n ∈ ms, m.span.stop ≤ n.span.start) : Parts lo hi (ns ++ ms) where
  within n hn := (List.mem_append.1 hn).elim (h.within n) (h'.within n)
  apart := by
    exact List.pairwise_append.2 ⟨h.apart, h'.apart, fun m hm n hn ↦
      .of_le (apart m hm n hn) (h'.within n hn).2.1⟩
  proper n hn := (List.mem_append.1 hn).elim (h.proper n) (h'.proper n)

/-- Parts of two operands. -/
theorem pair {m n : Nat} (h : Nested lo m ns) (h' : Nested n hi ms) (lt : m < n) (lt₁ : m < hi)
    (lt₂ : lo < n) : Parts lo hi (ns ++ ms) := by
  refine (h.parts (Nat.le_refl _) (Nat.le_of_lt lt₁) (.inr lt₁)).append
    (h'.parts (Nat.le_of_lt lt₂) (Nat.le_refl _) (.inl lt₂)) fun a ha b hb ↦ ?_
  have := h.within a ha
  have := h'.within b hb
  omega

/-- A node is nested with its parts. -/
theorem node (h : Parts lo hi ns) {n : Expr} (lt : lo < hi) (start : n.span.start = lo)
    (stop : n.span.stop = hi) : Nested lo hi (n :: ns) where
  within m hm := by
    rcases List.mem_cons.1 hm with rfl | hm
    · omega
    · exact h.within m hm
  apart := by
    refine List.pairwise_cons.2 ⟨fun m hm ↦ ⟨fun same ↦ ?_, .inr ?_⟩, h.apart⟩
    · have := h.proper m hm
      rw [← same] at this
      omega
    · have := h.within m hm
      omega

end Parts

/-- Where a spelled form stands. -/
def Form.Spans (lo hi : Nat) : Form → Prop
  | .expr e => e.span.start = lo ∧ e.span.stop = hi ∧ Nested lo hi e.nodes
  | .args es stop => stop.stop = hi ∧ Nested lo hi (Expr.listNodes es)
  | .items is stop => stop.stop = hi ∧ Nested lo hi (Expr.itemNodes is)
  | .item i => Nested lo hi (Expr.itemNodes [i])

theorem nodes_eq_cons (e : Expr) : e.nodes = e :: e.nodes.tail := by cases e <;> rfl

theorem nodes_withSpan (s : Span) (e : Expr) :
    (e.withSpan s).nodes = e.withSpan s :: e.nodes.tail := by
  cases e <;> rfl

theorem itemNodes_cons (i : Item) (is : List Item) :
    Expr.itemNodes (i :: is) = Expr.itemNodes [i] ++ Expr.itemNodes is := by
  cases i <;> simp [Expr.itemNodes]

theorem nodes_of_isAtom {e : Expr} (h : isAtom e) : e.nodes = [e] := by
  cases e <;> first | rfl | cases h

theorem stop_through {s t : Span} (h : s.stop ≤ t.stop) : (s.through t).stop = t.stop :=
  Nat.max_eq_left h

/-- An expression spans its tokens if its parts are within. -/
theorem Parts.expr {lo hi : Nat} {e : Expr} {ns : List Expr} (h : Parts lo hi ns) (lt : lo < hi)
    (nodes : e.nodes = e :: ns) (start : e.span.start = lo) (stop : e.span.stop = hi) :
    (Form.expr e).Spans lo hi :=
  ⟨start, stop, nodes ▸ h.node lt start stop⟩

/-- An expression that begins with tokens of its own and ends with what it holds. -/
theorem spans_behind {lo hi : Nat} {t : Token} {ts : List Token} {e : Expr} {s : Span} {ns : List Expr}
    (as : List Token) (covers : Covers lo hi (t :: (as ++ ts))) (some : ts ≠ [])
    (inner : ∀ {lo'}, Covers lo' hi ts → s.stop = hi ∧ Nested lo' hi ns) (nodes : e.nodes = e :: ns)
    (span : e.span = t.span.through s) : (Form.expr e).Spans lo hi := by
  obtain ⟨start, -, le⟩ := covers.head
  obtain ⟨lo', lt, inside⟩ := covers.tail as some
  obtain ⟨stop, nested⟩ := inner inside
  refine (nested.parts (Nat.le_of_lt lt) (Nat.le_refl _) (.inl lt)).expr covers.lt nodes ?_ ?_
  · rw [span]
    exact start
  · rw [span, stop_through (by omega), stop]

/-- An expression of two parts with tokens between them. It begins as the expression at `s` does. -/
theorem spans_of_two {lo hi : Nat} {as us bs : List Token} {e : Expr} {s s' : Span} {ns ms : List Expr}
    (covers : Covers lo hi (as ++ us ++ bs)) (ha : as ≠ []) (hu : us ≠ []) (hb : bs ≠ [])
    (front : ∀ {m}, Covers lo m as → s.start = lo ∧ s.stop ≤ m ∧ Nested lo m ns)
    (back : ∀ {n}, Covers n hi bs → s'.stop = hi ∧ Nested n hi ms)
    (nodes : e.nodes = e :: (ns ++ ms)) (span : e.span = s.through s') : (Form.expr e).Spans lo hi := by
  obtain ⟨m, n, first, lt, second⟩ := covers.between ha hu hb
  obtain ⟨start, le, nested⟩ := front first
  obtain ⟨stop, nested'⟩ := back second
  have := first.lt
  have := second.lt
  refine (Parts.pair nested nested' lt (by omega) (by omega)).expr covers.lt nodes ?_ ?_
  · rw [span]
    exact start
  · rw [span, stop_through (by omega), stop]

/-- What two parts hold, with tokens between them. -/
theorem Nested.beside {lo m n hi : Nat} {as bs : List Token} {ns ms : List Expr} (h : Nested lo m ns)
    (h' : Nested n hi ms) (front : Covers lo m as) (lt : m < n) (back : Covers n hi bs) :
    Nested lo hi (ns ++ ms) := by
  have := front.lt
  have := back.lt
  exact h.append h' (by omega) (by omega) (by omega)

/-- An expression spans its tokens, and its parts lie within. -/
theorem Spells.spans {rest pre : List Token} {form : Form} (h : Spells rest pre form) {lo hi : Nat}
    (covers : Covers lo hi pre) : form.Spans lo hi := by
  -- What stands behind an opening token goes by `spans_behind`, two expressions in a row by
  -- `spans_of_two`.
  induction h generalizing lo hi with
  | atom plain _ atom span text =>
    obtain ⟨start, -, -⟩ := covers.head
    have stop := covers.lastSpan default
    exact Parts.nil.expr covers.lt (nodes_of_isAtom atom) (span ▸ start) (span ▸ stop)
  | @paren rest pre o c e ho hc inner ih =>
    obtain ⟨start, -, le⟩ := covers.head
    obtain ⟨stop, lo', hi', lt, lt', inside⟩ := covers.group inner.some
    obtain ⟨-, -, nested⟩ := ih inside
    rw [nodes_eq_cons] at nested
    have tail : Nested lo' hi' e.nodes.tail :=
      ⟨fun n hn ↦ nested.within n (List.mem_cons_of_mem _ hn), nested.apart.of_cons⟩
    -- The expression keeps its parts; only its own span grows by the parentheses.
    refine (tail.parts (Nat.le_of_lt lt) (Nat.le_of_lt lt') (.inl lt)).expr covers.lt
      (nodes_withSpan _ e) ?_ ?_
    · rw [Expr.span_withSpan]
      exact start
    · rw [Expr.span_withSpan, stop_through (by omega), stop]
  | bracketed ho inner ih => exact spans_behind [] covers inner.some ih rfl rfl
  | array plain ho inner ih | call plain ho inner ih =>
    exact spans_behind [_] covers inner.some ih rfl rfl
  | opaqueName plain tail =>
    exact spans_behind [] covers tail.some (fun more ↦ ⟨more.lastSpan _, .nil⟩) rfl rfl
  | @opaqueSuffix rest pre more e base tail ih =>
    obtain ⟨m, n, front, le, back⟩ := covers.split base.some tail.some
    obtain ⟨start, stop, -⟩ := ih front
    have last := back.lastSpan e.span
    have := back.lt
    exact Parts.nil.expr covers.lt rfl start ((stop_through (by omega)).trans last)
  | @index rest pre inner o c e i ho hc base index ih ih' =>
    rw [show pre ++ o :: (inner ++ [c]) = pre ++ [o] ++ (inner ++ [c]) by simp] at covers
    refine spans_of_two covers base.some (by simp) (by simp)
      (fun front ↦ (ih front).imp_right (.imp_left Nat.le_of_eq)) (fun back ↦ ?_) rfl rfl
    obtain ⟨stop, hi', lt, inside⟩ := back.unsnoc index.some
    exact ⟨stop, (ih' inside).2.2.mono (Nat.le_refl _) (Nat.le_of_lt lt)⟩
  | unary plain operand ih =>
    exact spans_behind [] covers operand.some (fun inside ↦ (ih inside).2) rfl rfl
  | cast ho plain hc operand ih =>
    exact spans_behind [_, _] covers operand.some (fun inside ↦ (ih inside).2) rfl rfl
  | @binary rest pre pre' t op a b plain lhs rhs ih ih' =>
    rw [List.append_cons] at covers
    exact spans_of_two covers lhs.some (by simp) rhs.some
      (fun front ↦ (ih front).imp_right (.imp_left Nat.le_of_eq)) (fun back ↦ (ih' back).2) rfl rfl
  | @ternary rest pre pre' pre'' t u a b d plain plain' condition chosen other ih ih' ih'' =>
    rw [show pre ++ t :: (pre' ++ u :: pre'') = pre ++ t :: pre' ++ [u] ++ pre'' by simp] at covers
    -- The last value is the second of two, and all in front of it is the first.
    refine spans_of_two covers (by simp) (by simp) other.some (fun front ↦ ?_)
      (fun back ↦ (ih'' back).2) rfl rfl
    rw [List.append_cons] at front
    obtain ⟨m', n', first, lt, second⟩ := front.between condition.some (by simp) chosen.some
    obtain ⟨start, stop, nested⟩ := ih first
    have := second.lt
    exact ⟨start, by omega, nested.beside (ih' second).2.2 first lt second⟩
  | @elvis rest pre pre' t u a b plain plain' condition other ih ih' =>
    rw [show pre ++ t :: u :: pre' = pre ++ [t, u] ++ pre' by simp] at covers
    exact spans_of_two covers condition.some (by simp) other.some
      (fun front ↦ (ih front).imp_right (.imp_left Nat.le_of_eq)) (fun back ↦ (ih' back).2) rfl rfl
  | noArgs | noItems => exact ⟨covers.lastSpan default, .nil⟩
  | @lastArg rest pre c e hc first asked ih =>
    obtain ⟨stop, hi', lt, front⟩ := covers.unsnoc first.some
    obtain ⟨-, -, nested⟩ := ih front
    refine ⟨stop, ?_⟩
    rw [Expr.listNodes, Expr.listNodes, List.append_nil]
    exact nested.mono (Nat.le_refl _) (Nat.le_of_lt lt)
  | @moreArgs rest pre more c e es stop hc first asked others ih ih' =>
    rw [List.append_cons] at covers
    obtain ⟨m, n, front, lt, back⟩ := covers.between first.some (by simp) others.some
    obtain ⟨stop, nested⟩ := ih' back
    exact ⟨stop, (ih front).2.2.beside nested front lt back⟩
  | @lastItem rest pre c i hc first ih =>
    obtain ⟨stop, hi', lt, front⟩ := covers.unsnoc first.some
    exact ⟨stop, (ih front).mono (Nat.le_refl _) (Nat.le_of_lt lt)⟩
  | @moreItems rest pre more c i is stop hc first others ih ih' =>
    rw [List.append_cons] at covers
    obtain ⟨m, n, front, lt, back⟩ := covers.between first.some (by simp) others.some
    obtain ⟨stop, nested⟩ := ih' back
    refine ⟨stop, ?_⟩
    rw [itemNodes_cons]
    exact (ih front).beside nested front lt back
  | value _ ih =>
    show Nested lo hi (Expr.itemNodes [_])
    rw [Expr.itemNodes, Expr.itemNodes, List.append_nil]
    exact (ih covers).2.2
  | @keyed rest pre pre' t a b plain key value ih ih' =>
    rw [List.append_cons] at covers
    obtain ⟨m, n, front, lt, back⟩ := covers.between key.some (by simp) value.some
    show Nested lo hi (Expr.itemNodes [_])
    rw [Expr.itemNodes, Expr.itemNodes, List.append_nil]
    exact (ih front).2.2.beside (ih' back).2.2 front lt back

/-! ### Expressions inside others -/

/-- Among the tokens `ts`, with `rest` behind them, some spell `n`. -/
def Inside (rest ts : List Token) (n : Expr) : Prop :=
  ∃ us vs ws, ts = us ++ (vs ++ ws) ∧ Spells (ws ++ rest) vs (.expr n)

/-- The tokens stand where others surround them. -/
theorem Inside.within {rest behind ts all : List Token} {n : Expr} (h : Inside behind ts n)
    (us vs : List Token) (all_eq : all = us ++ (ts ++ vs)) (behind_eq : behind = vs ++ rest) :
    Inside rest all n := by
  subst all_eq behind_eq
  obtain ⟨before, ms, after, rfl, spells⟩ := h
  exact ⟨us ++ before, ms, after ++ vs, by simp, by simpa using spells⟩

theorem Spells.whole {rest ts : List Token} {e : Expr} (h : Spells rest ts (.expr e)) :
    Inside rest ts e :=
  ⟨[], ts, [], by simp, h⟩

/-- Every expression inside a spelled form is spelled by some of its tokens. -/
theorem Spells.inside {rest ts : List Token} {form : Form} (h : Spells rest ts form) {n : Expr}
    (mem : n ∈ form.nodes) : Inside rest ts n := by
  -- A node is the form itself, or it is inside a part, around which the other tokens stand.
  induction h with
  | atom plain ends atom span text =>
    rw [Form.nodes, nodes_of_isAtom atom] at mem
    obtain rfl := List.mem_singleton.1 mem
    exact whole (.atom plain ends atom span text)
  | @paren rest pre o c e ho hc inner ih =>
    rw [Form.nodes, nodes_withSpan] at mem
    rcases List.mem_cons.1 mem with rfl | mem
    · exact whole (.paren ho hc inner)
    · exact (ih (List.mem_of_mem_tail mem)).within [o] [c] (by simp) (by simp)
  | @bracketed _ pre o is stop ho inner ih =>
    rcases List.mem_cons.1 mem with rfl | mem
    · exact whole (.bracketed ho inner)
    · exact (ih mem).within [o] [] (by simp) (by simp)
  | @array _ pre t o is stop plain ho inner ih =>
    rcases List.mem_cons.1 mem with rfl | mem
    · exact whole (.array plain ho inner)
    · exact (ih mem).within [t, o] [] (by simp) (by simp)
  | @call _ pre t o name es stop plain ho inner ih =>
    rcases List.mem_cons.1 mem with rfl | mem
    · exact whole (.call plain ho inner)
    · exact (ih mem).within [t, o] [] (by simp) (by simp)
  | opaqueName plain tail =>
    obtain rfl := List.mem_singleton.1 mem
    exact whole (.opaqueName plain tail)
  | opaqueSuffix base tail =>
    obtain rfl := List.mem_singleton.1 mem
    exact whole (.opaqueSuffix base tail)
  | @index _ pre inner o c e i ho hc base index ih ih' =>
    rcases List.mem_cons.1 mem with rfl | mem
    · exact whole (.index ho hc base index)
    rcases List.mem_append.1 mem with mem | mem
    · exact (ih mem).within [] (o :: (inner ++ [c])) (by simp) (by simp)
    · exact (ih' mem).within (pre ++ [o]) [c] (by simp) (by simp)
  | @unary _ pre t op e plain operand ih =>
    rcases List.mem_cons.1 mem with rfl | mem
    · exact whole (.unary plain operand)
    · exact (ih mem).within [t] [] (by simp) (by simp)
  | @cast _ pre o t c kind e ho plain hc operand ih =>
    rcases List.mem_cons.1 mem with rfl | mem
    · exact whole (.cast ho plain hc operand)
    · exact (ih mem).within [o, t, c] [] (by simp) (by simp)
  | @binary _ pre pre' t op a b plain lhs rhs ih ih' =>
    rcases List.mem_cons.1 mem with rfl | mem
    · exact whole (.binary plain lhs rhs)
    rcases List.mem_append.1 mem with mem | mem
    · exact (ih mem).within [] (t :: pre') (by simp) (by simp)
    · exact (ih' mem).within (pre ++ [t]) [] (by simp) (by simp)
  | @ternary _ pre pre' pre'' t u a b d plain plain' condition chosen other ih ih' ih'' =>
    rcases List.mem_cons.1 mem with rfl | mem
    · exact whole (.ternary plain plain' condition chosen other)
    rcases List.mem_append.1 mem with mem | mem
    · rcases List.mem_append.1 mem with mem | mem
      · exact (ih mem).within [] (t :: (pre' ++ u :: pre'')) (by simp) (by simp)
      · exact (ih' mem).within (pre ++ [t]) (u :: pre'') (by simp) (by simp)
    · exact (ih'' mem).within (pre ++ t :: (pre' ++ [u])) [] (by simp) (by simp)
  | @elvis _ pre pre' t u a b plain plain' condition other ih ih' =>
    rcases List.mem_cons.1 mem with rfl | mem
    · exact whole (.elvis plain plain' condition other)
    rcases List.mem_append.1 mem with mem | mem
    · exact (ih mem).within [] (t :: u :: pre') (by simp) (by simp)
    · exact (ih' mem).within (pre ++ [t, u]) [] (by simp) (by simp)
  | noArgs | noItems => cases mem
  | @lastArg _ pre c e hc first asked ih =>
    rw [Form.nodes, Expr.listNodes, Expr.listNodes, List.append_nil] at mem
    exact (ih mem).within [] [c] (by simp) (by simp)
  | @moreArgs _ pre more c e es stop hc first asked others ih ih' =>
    rcases List.mem_append.1 mem with mem | mem
    · exact (ih mem).within [] (c :: more) (by simp) (by simp)
    · exact (ih' mem).within (pre ++ [c]) [] (by simp) (by simp)
  | @lastItem _ pre c i hc first ih => exact (ih mem).within [] [c] (by simp) (by simp)
  | @moreItems _ pre more c i is stop hc first others ih ih' =>
    rw [Form.nodes, itemNodes_cons] at mem
    rcases List.mem_append.1 mem with mem | mem
    · exact (ih mem).within [] (c :: more) (by simp) (by simp)
    · exact (ih' mem).within (pre ++ [c]) [] (by simp) (by simp)
  | value _ ih =>
    rw [Form.nodes, Expr.itemNodes, Expr.itemNodes, List.append_nil] at mem
    exact ih mem
  | @keyed _ pre pre' t a b plain key value ih ih' =>
    rw [Form.nodes, Expr.itemNodes, Expr.itemNodes, List.append_nil] at mem
    rcases List.mem_append.1 mem with mem | mem
    · exact (ih mem).within [] (t :: pre') (by simp) (by simp)
    · exact (ih' mem).within (pre ++ [t]) [] (by simp) (by simp)

/-! ### The arguments of a call -/

/-- Among the tokens `ts`, with `rest` behind them, a call has `a` and `b` as its first arguments. -/
def HasArgs (rest ts : List Token) (a b : Expr) : Prop :=
  ∃ before o us c vs next behind,
    ts = before ++ o :: (us ++ c :: (vs ++ next :: behind)) ∧
    o.kind = .punct .openParen ∧ c.kind = .punct .comma ∧
    (next.kind = .punct .comma ∨ next.kind = .punct .closeParen) ∧
    Spells (c :: (vs ++ next :: (behind ++ rest))) us (.expr a) ∧
    Spells (next :: (behind ++ rest)) vs (.expr b) ∧ Asked vs (next :: (behind ++ rest)) b

/-- The call stands where other tokens surround it. -/
theorem HasArgs.within {rest behind ts all : List Token} {a b : Expr} (h : HasArgs behind ts a b)
    (us vs : List Token) (all_eq : all = us ++ (ts ++ vs)) (behind_eq : behind = vs ++ rest) :
    HasArgs rest all a b := by
  subst all_eq behind_eq
  obtain ⟨before, o, ps, c, qs, next, behind, rfl, ho, hc, hn, first, second, asked⟩ := h
  refine ⟨us ++ before, o, ps, c, qs, next, behind ++ vs, by simp, ho, hc, hn, ?_, ?_, ?_⟩ <;>
    simpa using by assumption

/-- Arguments behind a parenthesis have their first two where a definition has its name and value. -/
theorem Spells.hasArgs_of_args {rest ts : List Token} {o : Token} {a b : Expr} {es : List Expr}
    {stop : Span} (ho : o.kind = .punct .openParen)
    (h : Spells rest ts (.args (a :: b :: es) stop)) : HasArgs rest (o :: ts) a b := by
  cases h with
  | @moreArgs _ us more c _ _ _ hc first _ others =>
    cases others with
    | @lastArg _ vs d _ hd second asked =>
      exact ⟨[], o, us, c, vs, d, [], rfl, ho, hc, .inr hd, by simpa using first, second, asked⟩
    | @moreArgs _ vs more d _ _ _ hd second asked others =>
      exact ⟨[], o, us, c, vs, d, more, rfl, ho, hc, .inl hd, by simpa using first, second, asked⟩

/-- A call with two arguments or more, maybe in parentheses. -/
theorem Spells.hasArgs_of_call {rest ts : List Token} {s : Span} {f : String} {a b : Expr}
    {es : List Expr} (h : Spells rest ts (.expr (.call s f (a :: b :: es)))) : HasArgs rest ts a b := by
  generalize is : Form.expr (.call s f (a :: b :: es)) = form at h
  induction h generalizing s with
  | atom _ _ atom =>
    cases is
    cases atom
  | @paren _ pre o c e ho hc inner ih =>
    cases e <;> cases is
    exact (ih rfl).within [o] [c] (by simp) (by simp)
  | @call _ pre t o name es' stop plain ho inner ih =>
    cases is
    exact (inner.hasArgs_of_args ho).within [t] [] (by simp) (by simp)
  | _ => cases is

/-- A plain text ends with a text token, or with the parenthesis around it. -/
theorem Spells.endsText {rest ts : List Token} {e : Expr} (h : Spells rest ts (.expr e))
    (text : e.literalText?.isSome) : ∃ us t, ts = us ++ [t] ∧ Script.endsText t := by
  cases h with
  | atom _ _ _ _ ends => exact ⟨[], _, rfl, ends text⟩
  | paren ho hc inner => exact ⟨_ :: _, _, rfl, by simp [Script.endsText, hc]⟩
  | _ => cases text

end ConfigScript.Script
