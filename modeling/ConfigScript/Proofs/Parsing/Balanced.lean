import ConfigScript.Proofs.Parsing.Placed

/-!
# What the tokens of a statement are

A statement without others inside that the grammar knows is made of tokens whose brackets are closed
(`Balanced`), and it spans them (`Forms`). Its end is put together from the ends of its parts; that this
is where its last token ends holds because the tokens stand in a row.
-/

namespace ConfigScript.Script

/-! ### Balanced tokens -/

/-- Tokens of the script, and no tags, whose brackets are closed, by brackets of any kind. -/
inductive Balanced : List Token → Prop
  | nil : Balanced []
  | plain {t : Token} {ts : List Token} (script : isScript t.kind) (opens : opensBracket t = false)
      (closes : closesBracket t = false) (more : Balanced ts) : Balanced (t :: ts)
  | nest {o c : Token} {ts us : List Token} (opens : opensBracket o) (closes : closesBracket c)
      (inside : Balanced ts) (more : Balanced us) : Balanced (o :: (ts ++ c :: us))

theorem isScript_of_opensBracket {t : Token} (h : opensBracket t) : isScript t.kind := by
  simp only [opensBracket, Token.isPunct, Bool.or_eq_true, beq_iff_eq] at h
  rcases h with (h | h) | h <;> rw [h] <;> rfl

theorem isScript_of_closesBracket {t : Token} (h : closesBracket t) : isScript t.kind := by
  simp only [closesBracket, Token.isPunct, Bool.or_eq_true, beq_iff_eq] at h
  rcases h with (h | h) | h <;> rw [h] <;> rfl

/-- No token opens and closes a bracket. -/
theorem opensBracket_of_closesBracket {t : Token} (closes : closesBracket t) :
    opensBracket t = false := by
  simp only [closesBracket, Token.isPunct, Bool.or_eq_true, beq_iff_eq] at closes
  rcases closes with (h | h) | h <;> simp [opensBracket, Token.isPunct, h]

theorem opensBracket_of_opensGroup {t : Token} (h : opensGroup t) : opensBracket t := by
  rw [opensGroup] at h
  rw [opensBracket, h, Bool.true_or]

theorem closesBracket_of_closesGroup {t : Token} (h : closesGroup t) : closesBracket t := by
  rw [closesGroup] at h
  rw [closesBracket, h, Bool.true_or]

namespace Balanced

variable {ts us : List Token}

/-- Balanced tokens behind balanced tokens are balanced. -/
theorem append (h : Balanced ts) (h' : Balanced us) : Balanced (ts ++ us) := by
  induction h with
  | nil => exact h'
  | plain script opens closes _ ih => exact .plain script opens closes ih
  | @nest o c ts _ opens closes inside _ _ ih =>
    rw [List.cons_append, List.append_assoc, List.cons_append]
    exact .nest opens closes inside ih

/-- Balanced tokens are no tags. -/
theorem isScript (h : Balanced ts) : ∀ t ∈ ts, isScript t.kind := by
  induction h with
  | nil => exact nofun
  | plain script _ _ _ ih => exact List.forall_mem_cons.2 ⟨script, ih⟩
  | nest opens closes _ _ ih ih' =>
    refine List.forall_mem_cons.2 ⟨isScript_of_opensBracket opens, List.forall_mem_append.2 ⟨ih, ?_⟩⟩
    exact List.forall_mem_cons.2 ⟨isScript_of_closesBracket closes, ih'⟩

end Balanced

/-- Tokens that expressions are made of are balanced. -/
theorem Enclosed.balanced {ts : List Token} (h : Enclosed ts) : Balanced ts := by
  induction h with
  | nil => exact .nil
  | @plain t ts plain _ ih =>
    refine .plain ?_ ?_ ?_ ih <;> unfold isPlain at plain <;> split at plain <;>
      simp_all [Script.isScript, opensBracket, closesBracket, Token.isPunct]
  | nest opens closes _ _ ih ih' =>
    exact .nest (opensBracket_of_opensGroup opens) (closesBracket_of_closesGroup closes) ih ih'

/-- Tokens without brackets are enclosed. -/
theorem enclosed_of_plain {ts : List Token} (plain : ∀ t ∈ ts, isPlain t) : Enclosed ts := by
  induction ts with
  | nil => exact .nil
  | cons t ts ih =>
    obtain ⟨here, others⟩ := List.forall_mem_cons.1 plain
    exact .plain here (ih others)

/-- Words are no brackets. -/
theorem balanced_of_words {ts : List Token} (words : ∀ t ∈ ts, ∃ n, t.kind = .ident n) :
    Balanced ts :=
  Enclosed.balanced <| enclosed_of_plain fun t ht ↦ by
    obtain ⟨n, kind⟩ := words t ht
    simp [isPlain, kind]

/-! ### Runs of balanced tokens -/

variable {c d e f : Cursor} {t o x : Token}

/-- From `c` to `next`, balanced tokens were read. -/
def Balances (c next : Cursor) : Prop := ∃ us, Took c us next ∧ Balanced us

namespace Balances

theorem refl (c : Cursor) : Balances c c := ⟨[], .refl c, .nil⟩

/-- Runs of balanced tokens are joined. -/
theorem trans (h : Balances c d) (h' : Balances d e) : Balances c e := by
  obtain ⟨us, took, balanced⟩ := h
  obtain ⟨vs, took', balanced'⟩ := h'
  exact ⟨_, took.trans took', balanced.append balanced'⟩

/-- A token that is no bracket. -/
theorem token (took : Took c [t] d) (script : isScript t.kind) (opens : opensBracket t = false)
    (closes : closesBracket t = false) : Balances c d :=
  ⟨_, took, .plain script opens closes .nil⟩

/-- A single token that is no bracket is a balanced run. -/
theorem punct {p : Punct} (took : Took c [t] d) (kind : t.kind = .punct p)
    (plain : p ∉ [Punct.openParen, .closeParen, .openBracket, .closeBracket, .openBrace, .closeBrace]) :
    Balances c d := by
  simp only [List.mem_cons, List.not_mem_nil, or_false, not_or] at plain
  refine token took (by rw [kind]; rfl) ?_ ?_ <;>
    simp [opensBracket, closesBracket, Token.isPunct, kind, plain]

theorem word {n : String} (took : Took c [t] d) (kind : t.kind = .ident n) : Balances c d :=
  ⟨_, took, balanced_of_words (List.forall_mem_singleton.2 ⟨n, kind⟩)⟩

/-- A group in brackets. -/
theorem group (took : Took c [o] d) (opens : opensBracket o) (inside : Balances d e)
    (took' : Took e [x] f) (closes : closesBracket x) : Balances c f := by
  obtain ⟨us, tookInside, balanced⟩ := inside
  exact ⟨_, took.cons (tookInside.trans took'), .nest opens closes balanced .nil⟩

end Balances

/-- From `c` to `next`, tokens of an expression were read. -/
def Encloses (c next : Cursor) : Prop := ∃ us, Took c us next ∧ Enclosed us

namespace Encloses

theorem refl (c : Cursor) : Encloses c c := ⟨[], .refl c, .nil⟩

/-- Runs of enclosed tokens are joined. -/
theorem trans (h : Encloses c d) (h' : Encloses d e) : Encloses c e := by
  obtain ⟨us, took, enclosed⟩ := h
  obtain ⟨vs, took', enclosed'⟩ := h'
  exact ⟨_, took.trans took', enclosed.append enclosed'⟩

theorem balances (h : Encloses c d) : Balances c d := by
  obtain ⟨us, took, enclosed⟩ := h
  exact ⟨us, took, enclosed.balanced⟩

/-- A run in parentheses or square brackets is enclosed with these. -/
theorem group (took : Took c [o] d)
    (opens : o.kind = .punct .openParen ∨ o.kind = .punct .openBracket) (inside : Encloses d e)
    (took' : Took e [x] f)
    (closes : x.kind = .punct .closeParen ∨ x.kind = .punct .closeBracket) : Encloses c f := by
  obtain ⟨us, tookInside, enclosed⟩ := inside
  exact ⟨_, took.cons (tookInside.trans took'), .group opens closes enclosed⟩

end Encloses

theorem opensBracket_of_kind (h : o.kind = .punct .openParen ∨ o.kind = .punct .openBracket) :
    opensBracket o := by
  rcases h with h | h <;> simp [opensBracket, Token.isPunct, h]

theorem closesBracket_of_kind (h : x.kind = .punct .closeParen ∨ x.kind = .punct .closeBracket) :
    closesBracket x := by
  rcases h with h | h <;> simp [closesBracket, Token.isPunct, h]

/-- The last of some tokens is one of them. -/
theorem exists_lastSpan {ts : List Token} (some : ts ≠ []) (s : Span) :
    ∃ t ∈ ts, lastSpan s ts = t.span := by
  induction ts generalizing s with
  | nil => exact absurd rfl some
  | cons t ts ih =>
    cases ts with
    | nil => exact ⟨t, List.mem_cons_self, rfl⟩
    | cons u ts =>
      obtain ⟨v, mem, last⟩ := ih (List.cons_ne_nil _ _) t.span
      exact ⟨v, List.mem_cons_of_mem _ mem, last⟩

/-- What is read further ends further behind. -/
theorem Took.stop_le {pre us : List Token} (h : Took c pre d) (h' : Took d us e) (some : pre ≠ [])
    (laid : Laid c.rest) : d.last.stop ≤ e.last.stop := by
  rw [h'.last, h.last]
  cases us with
  | nil => exact Nat.le_refl _
  | cons u us =>
    obtain ⟨v, mem, last⟩ := exists_lastSpan some c.last
    obtain ⟨w, mem', last'⟩ := exists_lastSpan (List.cons_ne_nil u us) (lastSpan c.last pre)
    have stops := laid.stops
    rw [h.rest, h'.rest] at stops
    rw [last', last]
    exact (List.pairwise_append.1 stops).2.2 v mem w (List.mem_append_left _ mem')

/-! ### Expressions, and what ends a statement -/

/-- An expression is read from enclosed tokens. -/
theorem encloses_of_expression {min : Nat} {r : Read Expr c.size} (h : expression min c = .ok r) :
    Encloses c r.next := by
  obtain ⟨pre, took, spells⟩ := spelled h
  exact ⟨pre, took, spells.enclosed⟩

theorem balances_of_expression {min : Nat} {r : Read Expr c.size} (h : expression min c = .ok r) :
    Balances c r.next := (encloses_of_expression h).balances

/-- An expression ends with its last token. -/
theorem stop_of_expression {min : Nat} {r : Read Expr c.size} (h : expression min c = .ok r)
    (laid : Laid c.rest) : r.value.span.stop = r.next.last.stop := by
  obtain ⟨pre, took, spells⟩ := spelled h
  rw [took.rest] at laid
  obtain ⟨lo, hi, covers, -⟩ := laid.covers spells.enclosed spells.some
  rw [took.last, covers.lastSpan]
  exact (spells.spans covers).2.1

/-- The end of a statement is a balanced run; where the statement ended with the last token so far, it
still does. -/
theorem balances_of_terminator {last : Span} {r : Peeked Span c.size}
    (h : c.terminator last = .ok r) :
    Balances c r.next ∧ (last.stop = c.last.stop → r.value.stop = r.next.last.stop) := by
  cases terminated_of_terminator h with
  | semicolon took kind =>
    exact ⟨.punct took kind (by decide), fun _ ↦ congrArg Span.stop took.last.symm⟩
  | closeTag => exact ⟨.refl c, id⟩

/-! ### Parts of statements -/

/-- The indices of a target are read from enclosed tokens and end with the last of these. -/
theorem encloses_of_indices {c : Cursor} {stop : Span} {r : Peeked (List (Option Expr) × Span) c.size}
    (h : indices stop c = .ok r) (here : stop = c.last) :
    Encloses c r.next ∧ r.value.2 = r.next.last := by
  cases indexed_of_indices h with
  | nothing value behind =>
    rw [value, behind]
    exact ⟨.refl c, here⟩
  | bare took opens took' closes lt others value behind =>
    rw [value, behind]
    obtain ⟨rest, last⟩ := encloses_of_indices others took'.last.symm
    exact ⟨(Encloses.group took (.inr opens) (.refl _) took' (.inr closes)).trans rest, last⟩
  | index took opens inner took' closes lt others value behind =>
    rw [value, behind]
    obtain ⟨rest, last⟩ := encloses_of_indices others took'.last.symm
    have group := Encloses.group took (.inr opens) (encloses_of_expression inner) took' (.inr closes)
    exact ⟨group.trans rest, last⟩
termination_by c.size

/-- A target is read from enclosed tokens, from the first to the last of which it spans. -/
theorem encloses_of_target {r : Read Target c.size} (h : target c = .ok r) :
    ∃ t us, Took c (t :: us) r.next ∧ Enclosed (t :: us) ∧
      r.value.span = t.span.through r.next.last := by
  cases targeted_of_target h with
  | @mk name t list took kind more =>
    obtain ⟨⟨us, took', enclosed⟩, last⟩ := encloses_of_indices more took.last.symm
    exact ⟨t.value, us, took.cons took', .plain (by simp [isPlain, kind]) enclosed,
      congrArg t.value.span.through last⟩

/-- Declared constants are read from balanced tokens. -/
theorem balances_of_constItems {c : Cursor} {r : Read (List ConstItem) c.size}
    (h : constItems c = .ok r) : Balances c r.next := by
  have item : ∀ {t x : Token} {n : String} {d e : Cursor} {v : Read Expr e.size}, Took c [t] d →
      t.kind = .ident n → Took d [x] e → x.kind = .punct .assign → expression 0 e = .ok v →
      Balances c v.next := fun took kind took' assign inner ↦
    (Balances.word took kind).trans ((Balances.punct took' assign (by decide)).trans
      (balances_of_expression inner))
  cases declared_of_constItems h with
  | last took kind took' assign inner _ behind =>
    rw [behind]
    exact item took kind took' assign inner
  | more took kind took' assign inner took'' comma lt others _ behind =>
    rw [behind]
    exact (item took kind took' assign inner).trans
      ((Balances.punct took'' comma (by decide)).trans (balances_of_constItems others))
termination_by c.size

/-- The targets of `unset`, and the parenthesis that closes them. -/
theorem balances_of_unsetTargets {c : Cursor} {r : Read (List Target × Span) c.size}
    (h : unsetTargets c = .ok r) :
    ∃ d x, Balances c d ∧ Took d [x] r.next ∧ closesBracket x ∧ r.value.2 = r.next.last := by
  cases emptied_of_unsetTargets h with
  | @close x took closes value =>
    rw [value]
    exact ⟨c, x, .refl c, took, closesBracket_of_kind (.inl closes), took.last.symm⟩
  | @more vs e first more one took commas lt others value behind =>
    rw [value, behind]
    obtain ⟨t, us, took', enclosed, -⟩ := encloses_of_target one
    have between : Enclosed vs := enclosed_of_plain fun u hu ↦ by simp [isPlain, commas u hu]
    have front : Balances c e := ⟨_, took'.trans took, (enclosed.append between).balanced⟩
    obtain ⟨d, x, rest, close⟩ := balances_of_unsetTargets others
    exact ⟨d, x, front.trans rest, close⟩
termination_by c.size

/-- The names of `global` are read from balanced tokens. -/
theorem balances_of_globalNames {c : Cursor} {r : Read (List String) c.size}
    (h : globalNames c = .ok r) : Balances c r.next := by
  have name : ∀ {t : Token} {n : String} {d : Cursor}, Took c [t] d → t.kind = .var n →
      Balances c d := fun took kind ↦
    ⟨_, took, Enclosed.balanced (.plain (by simp [isPlain, kind]) .nil)⟩
  cases globals_of_globalNames h with
  | last took kind => exact name took kind
  | more took kind took' comma lt others behind =>
    rw [behind]
    exact (name took kind).trans
      ((Balances.punct took' comma (by decide)).trans (balances_of_globalNames others))
termination_by c.size

/-! ### Statements -/

/-- From `c` to `next`, balanced tokens make up a statement, which reaches from where `start` does to
the last of them. -/
structure Forms (start : Span) (c next : Cursor) (s : Stmt) : Prop where
  balances : Balances c next
  span : Laid c.rest → s.span = start.through next.last

theorem through_congr_stop {s a b : Span} (h : a.stop = b.stop) : s.through a = s.through b := by
  rw [Span.through, Span.through, h]

/-- A statement that ends with what was read last, or with a semicolon behind it. -/
theorem Forms.of_terminator {start last : Span} (stmt : Span → Stmt) {r : Peeked Span d.size}
    (span : ∀ s, (stmt s).span = s) (front : Balances c d)
    (here : Laid c.rest → last.stop = d.last.stop) (stop : d.terminator last = .ok r) :
    Forms start c r.next (stmt (start.through r.value)) := by
  obtain ⟨behind, stops⟩ := balances_of_terminator stop
  exact ⟨front.trans behind, fun laid ↦ (span _).trans (through_congr_stop (stops (here laid)))⟩

/-- A statement that is an expression spans its tokens, which are balanced. -/
theorem forms_of_expressionStatement {r : Read Stmt c.size} (h : expressionStatement c = .ok r) :
    ∃ t, c.rest.head? = some t ∧ Forms t.span c r.next r.value := by
  cases expressed_of_expressionStatement h with
  | @mk t e stop head inner last =>
    exact ⟨t, head, .of_terminator (.expr · e.value) (fun _ ↦ rfl) (balances_of_expression inner)
      (stop_of_expression inner) last⟩

/-- An assignment spans its tokens, which are balanced. -/
theorem forms_of_assignment {r : Read Stmt c.size} (h : assignment? c = .ok (some r)) :
    ∃ t, c.rest.head? = some t ∧ Forms t.span c r.next r.value := by
  cases assigned_of_assignment h with
  | @mk left sign op value stop first took' hop inner last =>
    obtain ⟨t, us, took, enclosed, span⟩ := encloses_of_target first
    have kind : ∃ p, sign.value.kind = .punct p ∧ p ∉ [Punct.openParen, .closeParen, .openBracket,
        .closeBracket, .openBrace, .closeBrace] := by
      unfold assignOp? at hop
      split at hop
      all_goals first | exact ⟨_, by assumption, by decide⟩ | cases hop
    obtain ⟨p, kind, plain⟩ := kind
    obtain ⟨behind, stops⟩ := balances_of_terminator last
    have middle := ((Balances.punct took' kind plain).trans (balances_of_expression inner)).trans behind
    refine ⟨t, head?_of_took took, Balances.trans ⟨_, took, enclosed.balanced⟩ middle, fun laid ↦ ?_⟩
    obtain ⟨vs, tookMiddle, -⟩ := middle
    have further := took.stop_le tookMiddle (List.cons_ne_nil _ _) laid
    have laid' : Laid sign.next.rest := by
      rw [took.rest, took'.rest] at laid
      exact laid.append_right.append_right
    have ends := stops (stop_of_expression inner laid')
    show (left.value.span.through stop.value) = t.span.through stop.next.last
    rw [span]
    simp only [Span.through, ends, Span.mk.injEq, true_and, and_true]
    omega

/-- The statement that ends a script has the span it was given. -/
theorem span_of_ending {stmt : Span → Stmt} (ending : stmt ∈ [Stmt.ret, .exit]) (s : Span) :
    (stmt s).span = s := by
  simp only [List.mem_cons, List.not_mem_nil, or_false] at ending
  rcases ending with rfl | rfl <;> rfl

/-- Behind the word that begins a statement. -/
theorem Worded.forms {t : Token} {r : Peeked Stmt c.size} (h : Worded t r) (here : t.span = c.last) :
    Forms t.span c r.next r.value := by
  cases h with
  | @load kind e stop inner last =>
    exact .of_terminator (.load · kind e.value) (fun _ ↦ rfl) (balances_of_expression inner)
      (stop_of_expression inner) last
  | @const items stop list last =>
    exact .of_terminator (.const · items.value) (fun _ ↦ rfl) (balances_of_constItems list)
      (fun _ ↦ rfl) last
  | @unset o paren targets stop took opens list last =>
    obtain ⟨d, x, inside, took', closes, same⟩ := balances_of_unsetTargets list
    exact .of_terminator (.unset · targets.value.1) (fun _ ↦ rfl)
      (.group took (opensBracket_of_kind (.inl opens)) inside took' closes)
      (fun _ ↦ congrArg Span.stop same) last
  | @global names stop list last =>
    exact .of_terminator (.global · names.value) (fun _ ↦ rfl) (balances_of_globalNames list)
      (fun _ ↦ rfl) last
  | bare ending last =>
    exact .of_terminator _ (span_of_ending ending) (.refl c) (fun _ ↦ congrArg Span.stop here) last
  | ending ending inner last =>
    exact .of_terminator _ (span_of_ending ending) (balances_of_expression inner) (fun _ ↦ rfl) last

end ConfigScript.Script
