import ConfigScript.Proofs.Parsing.Arranged
import ConfigScript.Proofs.Parsing.Order

/-!
# Spans in order

A run of tokens may span a part of a tree (`Script.Spans`). Where the parts of a node have runs one
behind the other (`Script.Runs`), their spans stand in order within the span of the node; a statement for
which this holds sits among the tokens (`Stmt.Sits`, `Stmt.Sits.inOrder`). A script is tiled by the runs
of its statements, with tags and semicolons in between (`Script.Tiles`).

An opening tag `<?=` is in one place with the word that it stands for, so no run may begin or end with
an opening tag. None does, for such a tag stands behind text or a closing tag only (`Lexes.tagged`).
-/

namespace ConfigScript

/-- Spans that stand one behind the other between `lo` and `hi`; none is empty. -/
structure InOrder (lo hi : Nat) (ps : List Span) : Prop where
  within : ∀ p ∈ ps, lo ≤ p.start ∧ p.start < p.stop ∧ p.stop ≤ hi
  apart : ps.Pairwise fun p q ↦ p.stop ≤ q.start

theorem InOrder.nil (lo hi : Nat) : InOrder lo hi [] := ⟨nofun, .nil⟩

/-- A span in front of others. -/
theorem InOrder.cons {lo hi : Nat} {p : Span} {ps : List Span} (start : lo ≤ p.start)
    (some : p.start < p.stop) (stop : p.stop ≤ hi) (behind : InOrder p.stop hi ps) :
    InOrder lo hi (p :: ps) where
  within := List.forall_mem_cons.2 ⟨⟨start, some, stop⟩, fun q hq ↦ by
    have := behind.within q hq
    omega⟩
  apart := List.pairwise_cons.2 ⟨fun q hq ↦ (behind.within q hq).1, behind.apart⟩

/-- Behind the first of spans in order, the others are in order. -/
theorem InOrder.tail {lo hi : Nat} {p : Span} {ps : List Span} (h : InOrder lo hi (p :: ps)) :
    InOrder p.stop hi ps where
  within := fun q hq ↦
    ⟨(List.pairwise_cons.1 h.apart).1 q hq, (h.within q (List.mem_cons_of_mem _ hq)).2⟩
  apart := h.apart.of_cons

/-- Spans in order, and others behind them. -/
theorem InOrder.split {lo hi : Nat} {ps qs : List Span} (h : InOrder lo hi (ps ++ qs))
    (le : lo ≤ hi) : ∃ m, lo ≤ m ∧ m ≤ hi ∧ InOrder lo m ps ∧ InOrder m hi qs := by
  induction ps generalizing lo with
  | nil => exact ⟨lo, Nat.le_refl lo, le, .nil lo lo, h⟩
  | cons p ps ih =>
    obtain ⟨low, some, high⟩ := h.within p List.mem_cons_self
    obtain ⟨m, le, le', front, back⟩ := ih h.tail high
    exact ⟨m, by omega, le', .cons low some le front, back⟩

/-- The spans of what a branch holds: its condition and its statements. -/
def Branch.parts : Branch → List Span
  | .mk condition body => condition.span :: body.map Stmt.span

/-- The spans of the expressions and statements that a statement is made up of. -/
def Stmt.parts : Stmt → List Span
  | .conditional _ bs otherwise => bs.flatMap Branch.parts ++ (otherwise.getD []).map Stmt.span
  | .block _ body => body.map Stmt.span
  | s => s.exprs.map Expr.span

namespace Script

variable {us vs ts : List Token} {ps qs : List Span} {lo hi : Nat}

/-! ### Runs of tokens -/

/-- The span reaches from the start of the first token to the end of the last one. Neither is an opening
tag. -/
def Spans (us : List Token) (s : Span) : Prop :=
  ∃ t u, us.head? = some t ∧ us.getLast? = some u ∧ t.kind ≠ .openTag ∧ u.kind ≠ .openTag ∧
    s = { t.span with stop := u.span.stop }

/-- The tokens hold runs with these spans, one behind the other. A run does not end with an opening
tag. -/
inductive Runs : List Token → List Span → Prop
  | nil : Runs [] []
  | token (t : Token) {ts : List Token} {ps : List Span} (more : Runs ts ps) : Runs (t :: ts) ps
  | part {us ts : List Token} {t u : Token} {p : Span} {ps : List Span} (first : us.head? = some t)
      (last : us.getLast? = some u) (script : u.kind ≠ .openTag) (start : p.start = t.span.start)
      (stop : p.stop = u.span.stop) (more : Runs ts ps) : Runs (us ++ ts) (p :: ps)

/-- A tag or a semicolon: a token that may stand between statements. -/
def isSkipped (t : Token) : Bool :=
  match t.kind with
  | .openTag | .closeTag | .punct .semicolon => true
  | _ => false

/-- The tokens are the runs of the statements, and tokens between them that are skipped. -/
inductive Tiles : List Token → List Stmt → Prop
  | nil : Tiles [] []
  | skip {t : Token} {ts : List Token} {ss : List Stmt} (skipped : isSkipped t) (more : Tiles ts ss) :
      Tiles (t :: ts) ss
  | run {us ts : List Token} {s : Stmt} {ss : List Stmt} (spans : Spans us s.span)
      (more : Tiles ts ss) : Tiles (us ++ ts) (s :: ss)

/-- No token of a run ends behind the last one. -/
theorem Laid.stop_le_last (laid : Laid us) {u : Token} (last : us.getLast? = .some u) :
    ∀ t ∈ us, t.span.stop ≤ u.span.stop := by
  obtain ⟨ws, rfl⟩ := List.getLast?_eq_some_iff.1 last
  intro t ht
  rcases List.mem_append.1 ht with ht | ht
  · exact (List.pairwise_append.1 laid.stops).2.2 t ht u (List.mem_singleton_self u)
  · rw [List.mem_singleton.1 ht]

namespace Runs

/-- Tokens hold runs that one does not name. -/
theorem tokens (ts : List Token) : Runs ts [] := by
  induction ts with
  | nil => exact .nil
  | cons t ts ih => exact .token t ih

/-- Runs in tokens are runs in these together. -/
theorem append (h : Runs us ps) (h' : Runs vs qs) : Runs (us ++ vs) (ps ++ qs) := by
  induction h with
  | nil => exact h'
  | token t _ ih => exact .token t ih
  | part first last script start stop _ ih =>
    rw [List.append_assoc]
    exact .part first last script start stop ih

/-- The spans of runs stand in order. -/
theorem inOrder (h : Runs ts ps) (laid : Laid ts)
    (within : ∀ t ∈ ts, lo ≤ t.span.start ∧ t.span.stop ≤ hi) : InOrder lo hi ps := by
  induction h generalizing lo with
  | nil => exact .nil lo hi
  | token t _ ih => exact ih laid.tail (fun u hu ↦ within u (List.mem_cons_of_mem _ hu))
  | @part us ts t u p ps first last script start stop _ ih =>
    have ht : t ∈ us := List.mem_of_mem_head? first
    have hu : u ∈ us := List.mem_of_getLast? last
    have low := within t (List.mem_append_left _ ht)
    have high := within u (List.mem_append_left _ hu)
    have long := laid.some t (List.mem_append_left _ ht)
    have stops := (laid.sublist (List.sublist_append_left us ts)).stop_le_last last t ht
    -- All that follows the run stands behind its last token.
    have behind : ∀ v ∈ ts, u.span.stop ≤ v.span.start := fun v hv ↦
      (List.pairwise_append.1 laid.apart).2.2 u hu v hv script
    refine .cons (by omega) (by omega) (by omega) (ih laid.append_right fun v hv ↦ ?_)
    exact ⟨stop ▸ behind v hv, (within v (List.mem_append_right _ hv)).2⟩

end Runs

namespace Spans

variable {s : Span}

/-- The tokens of a run stand within its span. -/
theorem within (h : Spans us s) (laid : Laid us) :
    ∀ t ∈ us, s.start ≤ t.span.start ∧ t.span.stop ≤ s.stop := by
  obtain ⟨t, u, first, last, script, -, rfl⟩ := h
  refine fun v hv ↦ ⟨?_, laid.stop_le_last last v hv⟩
  obtain ⟨ws, rfl⟩ := List.head?_eq_some_iff.1 first
  rcases List.mem_cons.1 hv with rfl | hv
  · exact Nat.le_refl _
  · have long := laid.some t List.mem_cons_self
    have behind := (List.pairwise_cons.1 laid.apart).1 v hv script
    show t.span.start ≤ v.span.start
    omega

end Spans

/-- Statements that tile tokens stand there in a row. -/
theorem Tiles.runs {ss : List Stmt} (h : Tiles ts ss) : Runs ts (ss.map Stmt.span) := by
  induction h with
  | nil => exact .nil
  | skip _ _ ih => exact .token _ ih
  | run spans _ ih =>
    obtain ⟨t, u, first, last, -, script, same⟩ := spans
    exact .part first last script (by rw [same]) (by rw [same]) ih

/-- Tiled tokens behind tiled tokens are tiled by the statements of both. -/
theorem Tiles.append {ss ss' : List Stmt} (h : Tiles us ss) (h' : Tiles vs ss') :
    Tiles (us ++ vs) (ss ++ ss') := by
  induction h with
  | nil => exact h'
  | skip skipped _ ih => exact .skip skipped ih
  | run spans _ ih =>
    rw [List.append_assoc]
    exact .run spans ih

/-! ### Expressions -/

/-- The tokens of an expression are a run with its span. -/
theorem Spells.runs {rest pre : List Token} {e : Expr} (h : Spells rest pre (.expr e))
    (laid : Laid pre) : Runs pre [e.span] := by
  obtain ⟨lo, hi, covers⟩ := h.exists_covers laid
  obtain ⟨start, stop, -⟩ := h.spans covers
  obtain ⟨t, first⟩ := Option.isSome_iff_exists.1 (List.isSome_head?.2 h.some)
  obtain ⟨ws, u, rfl, -⟩ := h.endsAtom
  have begin' : t.span.start = lo := by
    obtain ⟨ts, same⟩ := List.head?_eq_some_iff.1 first
    rw [same] at covers
    exact covers.head.1
  have end' : u.span.stop = hi := by
    have last := covers.lastSpan default
    rwa [lastSpan_append] at last
  have script := (h.enclosed.ne_openTag (t := u) (by simp)).1
  have runs : Runs (ws ++ [u] ++ []) [e.span] :=
    .part first (List.getLast?_concat) script (by rw [start, begin']) (by rw [stop, end']) .nil
  rwa [List.append_nil] at runs

/-- The expressions that tokens hold stand there in a row. -/
theorem Holds.runs {rest : List Token} {rs : List Root} (h : Holds rest ts rs) (laid : Laid ts) :
    Runs ts (rs.map (·.expr.span)) := by
  induction h with
  | nil => exact .nil
  | token t _ ih => exact .token t (ih laid.tail)
  | @first us ts e rs spells _ _ _ ih =>
    exact (spells.runs (laid.sublist (List.sublist_append_left us ts))).append (ih laid.append_right)
  | @behind t us ts r rs _ spells _ _ _ ih =>
    exact .token t ((spells.runs (laid.tail.sublist (List.sublist_append_left us ts))).append
      (ih laid.tail.append_right))

/-- The parts of a spelled expression stand in order within it. -/
theorem Spells.inOrder {rest pre : List Token} {e : Expr} (h : Spells rest pre (.expr e))
    (laid : Laid pre) : InOrder e.span.start e.span.stop (e.parts.map Expr.span) := by
  obtain ⟨lo, hi, covers⟩ := h.exists_covers laid
  obtain ⟨rfl, rfl, nested⟩ := h.spans covers
  refine ⟨List.forall_mem_map.2 fun p hp ↦ nested.within p ?_, ?_⟩
  · rw [Expr.nodes_eq_parts]
    exact List.mem_cons_of_mem _ (List.mem_flatMap.2 ⟨p, hp, p.mem_nodes⟩)
  · exact List.pairwise_map.2 ((h.apart covers).imp fun before ↦
      before _ (Expr.mem_nodes _) _ (Expr.mem_nodes _))

/-- In a script, the parts of every expression stand in order within it. -/
theorem Holds.inOrder {rest : List Token} {rs : List Root} (h : Holds rest ts rs) (laid : Laid ts)
    {e : Expr} (mem : e ∈ Root.nodes rs) :
    InOrder e.span.start e.span.stop (e.parts.map Expr.span) := by
  obtain ⟨us, vs, ws, rfl, spells⟩ := h.inside mem
  exact spells.inOrder (laid.append_right.sublist (List.sublist_append_left vs ws))

/-! ### Statements -/

end Script

open Script

/-- The statement spans a run of the tokens, and what it is made up of stands there in a row. -/
def Stmt.Sits (ts : List Token) (n : Stmt) : Prop :=
  ∃ us, us <:+: ts ∧ Spans us n.span ∧ Runs us n.parts

namespace Stmt.Sits

variable {us ts : List Token} {n : Stmt}

theorem mono (h : n.Sits us) (inside : us <:+: ts) : n.Sits ts := by
  obtain ⟨vs, part, spans, runs⟩ := h
  exact ⟨vs, part.trans inside, spans, runs⟩

/-- What a statement is made up of stands in order within it. -/
theorem inOrder (h : n.Sits ts) (laid : Laid ts) : InOrder n.span.start n.span.stop n.parts := by
  obtain ⟨us, part, spans, runs⟩ := h
  have laid := laid.sublist part.sublist
  exact runs.inOrder laid (spans.within laid)

end Stmt.Sits

/-! ### Tags -/

namespace Script

/-- An opening tag and text stand behind text or a closing tag only: `t` in front of `u` does not speak
against it. -/
def Tagged (t u : Token) : Prop :=
  u.kind = .openTag ∨ u.kind = .inlineHtml → t.kind = .closeTag ∨ t.kind = .inlineHtml

theorem tagged_of_isScript {t u : Token} (script : isScript u.kind) : Tagged t u := by
  rintro (same | same) <;> rw [same] at script <;> cases script

/-- Opening tags and text stand behind text or closing tags only. -/
theorem Lexes.tagged {rest : List Char} {m m' : Mode} {p : Place} {cs : List Char} {ts : List Token}
    (h : Lexes rest m p cs ts m') {t : Token}
    (front : m = .html → t.kind = .closeTag ∨ t.kind = .inlineHtml) :
    (t :: ts).IsChain Tagged := by
  induction h generalizing t with
  | done => exact .singleton t
  | @piece m m₁ m' p c w g cs kinds ts here more ih =>
    cases m with
    | html =>
      have same := Except.ok.inj here
      unfold htmlPiece at same
      split at same <;> obtain ⟨rfl, -, -, rfl⟩ := Piece.mk.inj same
      · exact .cons_cons (fun _ ↦ front rfl) (ih fun _ ↦ .inr rfl)
      · exact .cons_cons (fun _ ↦ front rfl) (.cons_cons (tagged_of_isScript rfl) (ih nofun))
      · exact .cons_cons (fun _ ↦ front rfl) (ih nofun)
    | script =>
      rcases scriptPiece_kinds here with ⟨k, rest, same, script⟩ | ⟨rest, same, -⟩ | ⟨tag, -⟩
      · obtain ⟨rfl, -, -, rfl⟩ := Piece.mk.inj same
        exact .cons_cons (tagged_of_isScript script) (ih nofun)
      · obtain ⟨rfl, -, -, rfl⟩ := Piece.mk.inj same
        exact ih nofun
      · dsimp only at tag
        subst tag
        refine .cons_cons ?_ (ih fun _ ↦ .inl rfl)
        rintro (same | same) <;> cases same

end Script

end ConfigScript
