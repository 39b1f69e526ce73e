import ConfigScript.Proofs.Parsing.Tiles

/-!
# The statements of a script tile it

What the parser reads as a statement is a run of tokens, in which the expressions and statements that it
is made up of have runs one behind the other (`Seat`). Between the statements of a script it reads tags
and semicolons only (`Tiles`). So no token is lost and none belongs to two statements, and the spans of
what is inside a node stand in order within the span of the node (`tiles_of_parse`).

A statement that is skipped ends in front of a closing tag unless that stands in brackets; so its last
token is never a tag (`shut_of_skipRest`).
-/

namespace ConfigScript.Script

variable {c d e : Cursor} {us vs : List Token} {t u : Token} {s : Stmt} {ps qs : List Span}
  {ns ms : List Stmt}

/-! ### Runs that were read -/

/-- There is a last token, and it is no opening tag. -/
def Shut (us : List Token) : Prop := ∃ u, us.getLast? = some u ∧ u.kind ≠ .openTag

theorem Shut.append (us : List Token) (h : Shut vs) : Shut (us ++ vs) := by
  obtain ⟨u, last, script⟩ := h
  exact ⟨u, by rw [List.getLast?_append, last]; rfl, script⟩

theorem shut_of_forall (some : us ≠ []) (script : ∀ u ∈ us, u.kind ≠ .openTag) : Shut us := by
  obtain ⟨u, last⟩ := Option.isSome_iff_exists.1 (List.getLast?_isSome.2 some)
  exact ⟨u, last, script u (List.mem_of_getLast? last)⟩

/-- The last span is that of the last token. -/
theorem lastSpan_of_getLast? (last : us.getLast? = some u) (s : Span) : lastSpan s us = u.span := by
  obtain ⟨ws, rfl⟩ := List.getLast?_eq_some_iff.1 last
  rw [lastSpan_append]
  rfl

/-- A token of the script is no opening tag. -/
theorem ne_openTag_of_isScript (h : isScript t.kind) : t.kind ≠ .openTag := by
  rintro same
  rw [same] at h
  cases h

/-- The tokens ahead are those of a text. -/
structure Ready (c : Cursor) : Prop where
  laid : Laid c.rest
  tagged : c.rest.IsChain Tagged

/-- What is ready stays so further on. -/
theorem Ready.suffix (ready : Ready c) (part : d.rest <:+ c.rest) : Ready d := by
  obtain ⟨laid, tagged⟩ := ready
  obtain ⟨pre, whole⟩ := part
  rw [← whole] at laid tagged
  exact ⟨laid.append_right, tagged.right_of_append⟩

theorem Took.ready (took : Took c us d) (ready : Ready c) : Ready d := ready.suffix took.suffix

/-- The token ahead is no opening tag. -/
def AtScript (c : Cursor) : Prop := ∀ t ∈ c.rest.head?, t.kind ≠ .openTag

/-- No opening tag stands behind a token of the script. -/
theorem Took.atScript (took : Took c [t] d) (script : isScript t.kind) (ready : Ready c) :
    AtScript d := by
  have tagged := ready.tagged
  rw [took.rest] at tagged
  intro u head
  obtain ⟨ts, same⟩ := List.head?_eq_some_iff.1 head
  rw [same, List.singleton_append, List.isChain_cons_cons] at tagged
  intro tag
  rcases tagged.1 (.inl tag) with kind | kind <;> rw [kind] at script <;> cases script

/-- From `c` to `next`, the tokens that were read hold runs with the spans `ps`, and the statements `ns`
sit among them. -/
def Seats (c next : Cursor) (ps : List Span) (ns : List Stmt) : Prop :=
  ∃ us, Took c us next ∧ (us = [] ∨ Shut us) ∧ Runs us ps ∧ ∀ n ∈ ns, n.Sits us

namespace Seats

theorem refl (c : Cursor) : Seats c c [] [] := ⟨[], .refl c, .inl rfl, .nil, nofun⟩

/-- Whatever the tokens in front end with, more behind them does not end with an opening tag. -/
theorem behind (took : Took c us d) (runs : Runs us ps) (inside : ∀ n ∈ ns, n.Sits us)
    (tokens : Took d vs e) (shut : Shut vs) (runs' : Runs vs qs) (inside' : ∀ n ∈ ms, n.Sits vs) :
    Seats c e (ps ++ qs) (ns ++ ms) := by
  refine ⟨_, took.trans tokens, .inr (shut.append us), runs.append runs', fun n hn ↦ ?_⟩
  rcases List.mem_append.1 hn with hn | hn
  · exact (inside n hn).mono (List.infix_append' [] us vs)
  · exact (inside' n hn).mono (List.suffix_append us vs).isInfix

/-- Seats behind seats are seats. -/
theorem trans (h : Seats c d ps ns) (h' : Seats d e qs ms) : Seats c e (ps ++ qs) (ns ++ ms) := by
  obtain ⟨us, took, shut, runs, inside⟩ := h
  obtain ⟨vs, took', rfl | shut', runs', inside'⟩ := h'
  · refine ⟨_, took.trans took', by rwa [List.append_nil], runs.append runs', fun n hn ↦ ?_⟩
    rcases List.mem_append.1 hn with hn | hn
    · exact (inside n hn).mono (List.infix_append' [] us [])
    · exact (inside' n hn).mono (List.nil_infix)
  · exact behind took runs inside took' shut' runs' inside'

theorem token (took : Took c [t] d) (script : t.kind ≠ .openTag) : Seats c d [] [] :=
  ⟨[t], took, .inr ⟨t, rfl, script⟩, .tokens _, nofun⟩

theorem ready (h : Seats c d ps ns) (ready : Ready c) : Ready d := by
  obtain ⟨us, took, -⟩ := h
  exact took.ready ready

end Seats

/-- An expression has a run of its own. -/
theorem seats_of_expression {min : Nat} {r : Read Expr c.size} (laid : Laid c.rest)
    (h : expression min c = .ok r) : Seats c r.next [r.value.span] [] := by
  obtain ⟨us, took, spells⟩ := spelled h
  rw [took.rest] at laid
  have shut : Shut us := shut_of_forall spells.some fun u hu ↦ (spells.enclosed.ne_openTag hu).1
  exact ⟨us, took, .inr shut, spells.runs (laid.sublist (List.sublist_append_left ..)), nofun⟩

/-- The tokens from `c` to `next` are the run of a statement, and all that it is made up of sits among
them. -/
def Seat (c next : Cursor) (s : Stmt) : Prop :=
  ∃ us, Took c us next ∧ Spans us s.span ∧ Runs us s.parts ∧ ∀ n ∈ s.nodes, n.Sits us

/-- A statement whose span was put together from its first and its last token. -/
theorem Took.seat (took : Took c us d) (laid : Laid c.rest) (first : us.head? = some t)
    (script : t.kind ≠ .openTag) (shut : Shut us) (span : s.span = t.span.through d.last)
    (runs : Runs us s.parts) (inside : ∀ n ∈ s.nodes, n = s ∨ n.Sits us) : Seat c d s := by
  obtain ⟨u, last, script'⟩ := shut
  rw [took.rest] at laid
  have stops := (laid.sublist (List.sublist_append_left us d.rest)).stop_le_last last t
    (List.mem_of_mem_head? first)
  have spans : Spans us s.span := by
    refine ⟨t, u, first, last, script, script', ?_⟩
    rw [span, took.last, lastSpan_of_getLast? last, Span.through, Nat.max_eq_left stops]
  refine ⟨us, took, spans, runs, fun n hn ↦ ?_⟩
  rcases inside n hn with rfl | sits
  · exact ⟨us, List.infix_refl us, spans, runs⟩
  · exact sits

/-! ### Statements without others inside -/

/-- Whether no statement is inside. -/
def isFlat : Stmt → Bool
  | .conditional .. | .block .. => false
  | _ => true

theorem isFlat_of_isOther (h : isOther s) : isFlat s := by cases s <;> first | rfl | cases h

theorem nodes_of_isFlat (h : isFlat s) : s.nodes = [s] := by cases s <;> first | rfl | cases h

/-- A statement without others inside is made up of its outermost expressions. -/
theorem parts_of_isFlat (h : isFlat s) : s.parts = s.roots.map (·.expr.span) := by
  have parts : s.parts = s.exprs.map Expr.span := by cases s <;> first | rfl | cases h
  have exprs : s.exprs = s.roots.map Root.expr := by
    cases s with
    | conditional | block => cases h
    | assign sp op target e =>
      rw [Stmt.exprs, Stmt.roots, List.map_append, Target.exprs_eq_roots]
      split <;> rfl
    | unset sp targets =>
      rw [Stmt.exprs, Stmt.roots, List.map_flatMap]
      simp only [Target.exprs_eq_roots]
    | const sp items =>
      rw [Stmt.exprs, Stmt.roots, List.map_map]
      rfl
    | _ => rfl
  rw [parts, exprs, List.map_map]
  rfl

/-- A statement that the grammar knows, behind the tokens `front` that were read before. -/
theorem Forms.seat (forms : Forms t.span d e s) (front : Took c us d)
    (script : ∀ u ∈ us, isScript u.kind) (first : ∀ vs, Took d vs e → (us ++ vs).head? = some t)
    (made : Made c e s.roots) (flat : isFlat s) (laid : Laid c.rest) : Seat c e s := by
  obtain ⟨⟨vs, took, balanced⟩, span⟩ := forms
  obtain ⟨ws, took', holds⟩ := made
  have whole := front.trans took
  obtain rfl : ws = us ++ vs := List.append_cancel_right (took'.rest.symm.trans whole.rest)
  have laid' := laid
  rw [front.rest] at laid'
  have scripts : ∀ u ∈ us ++ vs, u.kind ≠ .openTag := fun u hu ↦ ne_openTag_of_isScript <|
    (List.mem_append.1 hu).elim (script u) (balanced.isScript u)
  have head := first vs took
  have some : us ++ vs ≠ [] := by
    rintro none
    rw [none] at head
    cases head
  have inner := laid
  rw [whole.rest] at inner
  have runs := holds.runs (inner.sublist (List.sublist_append_left ..))
  rw [← parts_of_isFlat flat] at runs
  refine whole.seat laid head (scripts t (List.mem_of_mem_head? head))
    (shut_of_forall some scripts) (span laid'.append_right) runs ?_
  rw [nodes_of_isFlat flat]
  exact fun n hn ↦ .inl (List.mem_singleton.1 hn)

/-- A statement that the grammar knows, from its first token on. -/
theorem Forms.seat_here (forms : Forms t.span c d s) (head : c.rest.head? = some t)
    (shorter : d.size < c.size) (made : Made c d s.roots) (flat : isFlat s) (laid : Laid c.rest) :
    Seat c d s := by
  refine forms.seat (.refl c) nofun (fun vs took ↦ ?_) made flat laid
  cases vs with
  | nil =>
    rw [Cursor.size, Cursor.size, took.rest] at shorter
    exact absurd shorter (Nat.lt_irrefl _)
  | cons v vs =>
    rw [took.rest] at head
    exact head

/-- An assignment has no statement inside. -/
theorem isFlat_of_assignment {r : Read Stmt c.size} (h : assignment? c = .ok (some r)) :
    isFlat r.value := by
  obtain ⟨s, op, t, e, same⟩ := exists_of_assignment h
  rw [same]
  rfl

/-- A statement that is an expression has a seat. -/
theorem seat_of_expressionStatement {r : Read Stmt c.size} (laid : Laid c.rest)
    (word : ∀ u ∈ c.rest.head?, u.kind ≠ .ident "echo") (h : expressionStatement c = .ok r) : Seat c r.next r.value := by
  obtain ⟨t, head, forms⟩ := forms_of_expressionStatement h
  exact forms.seat_here head r.shorter (made_of_expressionStatement word h)
    (isFlat_of_isOther (isOther_of_expressionStatement h)) laid

/-- An assignment has a seat. -/
theorem seat_of_assignment {r : Read Stmt c.size} (laid : Laid c.rest)
    (h : assignment? c = .ok (some r)) : Seat c r.next r.value := by
  obtain ⟨t, head, forms⟩ := forms_of_assignment h
  exact forms.seat_here head r.shorter (made_of_assignment h) (isFlat_of_assignment h) laid

/-! ### Skipping -/

/-- What is skipped behind the token `t` does not end with an opening tag: outside of brackets, the
token read last is always one of the script. -/
theorem shut_of_skipRest {c : Cursor} {opened : List Token} {t : Token} {r : Peeked Unit c.size}
    (tagged : (t :: c.rest).IsChain Tagged) (script : opened = [] → isScript t.kind)
    (h : skipRest opened c = .ok r) : ∃ us, Took c us r.next ∧ Shut (t :: us) := by
  have alone : opened = [] → Shut [t] := fun none ↦
    ⟨t, rfl, ne_openTag_of_isScript (script none)⟩
  -- One more token behind which the rest is skipped.
  have go : ∀ {u : Token} {d : Cursor} {inner : List Token} {more : Peeked Unit d.size},
      Took c [u] d → d.size < c.size → (inner = [] → isScript u.kind) → skipRest inner d = .ok more →
      ∃ us, Took c us more.next ∧ Shut (t :: us) := by
    intro u d inner more took lt script rest
    rw [took.rest, List.singleton_append, List.isChain_cons_cons] at tagged
    obtain ⟨us, took', shut⟩ := shut_of_skipRest tagged.2 script rest
    exact ⟨_, took.cons took', shut.append [t]⟩
  cases skipping_of_skipRest h with
  | stays done _ behind =>
    rw [behind]
    exact ⟨[], .refl c, alone done⟩
  | @semicolon u _ took kind =>
    exact ⟨_, took, u, rfl, ne_openTag_of_isScript (by rw [kind]; rfl)⟩
  | @block u _ _ took closes =>
    exact ⟨_, took, u, rfl, ne_openTag_of_isScript (isScript_of_closesBracket closes)⟩
  | opening took lt _ rest behind =>
    rw [behind]
    exact go took lt (fun none ↦ absurd none (List.cons_ne_nil _ _)) rest
  | closing _ took lt closes rest behind =>
    rw [behind]
    exact go took lt (fun _ ↦ isScript_of_closesBracket closes) rest
  | @plain u _ _ took lt _ _ tag rest behind =>
    rw [behind]
    refine go took lt (fun none ↦ ?_) rest
    -- No tag stands here: the token in front is one of the script.
    have script := script none
    rw [took.rest, List.singleton_append, List.isChain_cons_cons] at tagged
    cases kind : u.kind with
    | openTag => rcases tagged.1 (.inl kind) with same | same <;> rw [same] at script <;> cases script
    | inlineHtml => rcases tagged.1 (.inr kind) with same | same <;> rw [same] at script <;> cases script
    | closeTag => exact absurd kind (tag none)
    | _ => rfl
termination_by c.size

/-- A skipped statement has a seat. -/
theorem seat_of_skipped {r : Read Stmt c.size} (ready : Ready c)
    (script : ∀ t ∈ c.rest.head?, isScript t.kind) (h : opaqueStatement c = .ok r) :
    Seat c r.next r.value := by
  cases passed_of_opaqueStatement h with
  | @mk t rest took _ more =>
    have tagged := ready.tagged
    have here := script t.value (head?_of_took took)
    rw [took.rest] at tagged
    obtain ⟨us, took', shut⟩ := shut_of_skipRest tagged (fun _ ↦ here) more
    exact (took.cons took').seat ready.laid rfl (ne_openTag_of_isScript here) shut rfl (.tokens _)
      fun n hn ↦ .inl (List.mem_singleton.1 hn)

/-! ### Statements with others inside -/

/-- What was read from `c` to `next` where one statement may stand. -/
def Reads (c next : Cursor) : Option Stmt → Prop
  | none => ∃ t, Took c [t] next ∧ isSkipped t
  | some s => Seat c next s

/-- What was read tiles its tokens, and does not end with an opening tag unless it is one. -/
theorem Reads.tiles {found : Option Stmt} (h : Reads c d found) :
    ∃ us, Took c us d ∧ Tiles us found.toList ∧ (∀ n ∈ Stmt.nodesOfList found.toList, n.Sits us) ∧
      (AtScript c → Shut us) := by
  cases found with
  | none =>
    obtain ⟨t, took, skipped⟩ := h
    exact ⟨[t], took, .skip skipped .nil, nofun, fun script ↦ ⟨t, rfl, script t (head?_of_took took)⟩⟩
  | some s =>
    obtain ⟨us, took, spans, runs, inside⟩ := h
    obtain ⟨t, u, -, last, -, script, -⟩ := id spans
    have tiles : Tiles (us ++ []) [s] := .run spans .nil
    rw [List.append_nil] at tiles
    refine ⟨us, took, tiles, ?_, fun _ ↦ ⟨u, last, script⟩⟩
    show ∀ n ∈ s.nodes ++ [], n.Sits us
    rwa [List.append_nil]

/-- The spans of what follows a branch. -/
def Alternatives.parts (a : Alternatives) : List Span :=
  a.branches.flatMap Branch.parts ++ (a.otherwise.getD []).map Stmt.span

/-- The statements inside what follows a branch. -/
def Alternatives.nodes (a : Alternatives) : List Stmt :=
  Stmt.nodesOfBranches a.branches ++ Stmt.nodesOfList (a.otherwise.getD [])

/-- The statements of a conditional are itself, those of its first branch and those of the alternatives.
-/
theorem nodes_conditional (s : Span) (b : Branch) (a : Alternatives) :
    (Stmt.conditional s (b :: a.branches) a.otherwise).nodes =
      .conditional s (b :: a.branches) a.otherwise :: (Stmt.nodesOfBranches [b] ++ a.nodes) := by
  obtain ⟨condition, body⟩ := b
  obtain ⟨branches, otherwise, stop⟩ := a
  cases otherwise <;> simp [Stmt.nodes, Stmt.nodesOfBranches, Stmt.nodesOfList, Alternatives.nodes]

/-- With fewer than `n` tokens ahead, what the parser of statements accepts stands in rows, and ends with
the token that was read last. -/
structure SeatsAll (n : Nat) : Prop where
  branch : ∀ {c : Cursor} {r : Read (Branch × Span) c.size}, c.size < n → Ready c →
    branch c = .ok r →
    Seats c r.next r.value.1.parts (Stmt.nodesOfBranches [r.value.1]) ∧ r.value.2 = r.next.last
  alternatives : ∀ {c : Cursor} {stop : Span} {r : Peeked Alternatives c.size}, c.size < n →
    Ready c → stop = c.last → alternatives stop c = .ok r →
    Seats c r.next r.value.parts r.value.nodes ∧ r.value.stop = r.next.last
  body : ∀ {c : Cursor} {r : Peeked (List Stmt × Span) c.size}, c.size < n → Ready c → AtScript c →
    body c = .ok r →
    Seats c r.next (r.value.1.map Stmt.span) (Stmt.nodesOfList r.value.1) ∧ r.value.2 = r.next.last
  block : ∀ {c : Cursor} {r : Read (List Stmt × Span) c.size}, c.size < n → Ready c →
    block c = .ok r →
    Seats c r.next (r.value.1.map Stmt.span) (Stmt.nodesOfList r.value.1) ∧ r.value.2 = r.next.last

/-- What holds below a bound holds below each smaller one. -/
theorem SeatsAll.mono {m n : Nat} (h : SeatsAll n) (le : m ≤ n) : SeatsAll m where
  branch lt := h.branch (Nat.lt_of_lt_of_le lt le)
  alternatives lt := h.alternatives (Nat.lt_of_lt_of_le lt le)
  body lt := h.body (Nat.lt_of_lt_of_le lt le)
  block lt := h.block (Nat.lt_of_lt_of_le lt le)

/-- The parts of a branch have seats, and it ends with the token read last. -/
theorem seats_of_branch (ih : SeatsAll c.size) {r : Read (Branch × Span) c.size} (ready : Ready c)
    (h : branch c = .ok r) :
    Seats c r.next r.value.1.parts (Stmt.nodesOfBranches [r.value.1]) ∧ r.value.2 = r.next.last := by
  cases branched_of_branch h with
  | @mk o x paren condition close run took opens inner took' closes lt inside =>
    obtain ⟨us, tookInner, -⟩ := spelled inner
    have here := took.ready ready
    have behind := tookInner.ready here
    have front := ((Seats.token took (by simp [opens])).trans
      (seats_of_expression here.laid inner)).trans (.token took' (by simp [closes]))
    obtain ⟨seats, stop⟩ := ih.body lt (took'.ready behind)
      (took'.atScript (by rw [closes]; rfl) behind) inside
    refine ⟨?_, stop⟩
    have whole := front.trans seats
    show Seats c run.next (condition.value.span :: run.value.1.map Stmt.span)
      (Stmt.nodesOfList run.value.1 ++ [])
    rw [List.append_nil]
    exact whole

theorem parts_addBranch (b : Branch) (a : Alternatives) : (a.addBranch b).parts = b.parts ++ a.parts := by
  obtain ⟨condition, body⟩ := b
  simp [Branch.parts, Alternatives.parts, Alternatives.addBranch]

/-- A branch in front of alternatives adds its statements in front of theirs. -/
theorem nodes_addBranch (b : Branch) (a : Alternatives) :
    (a.addBranch b).nodes = Stmt.nodesOfBranches [b] ++ a.nodes := by
  obtain ⟨condition, body⟩ := b
  simp [Stmt.nodesOfBranches, Alternatives.nodes, Alternatives.addBranch]

/-- The parts of the alternatives have seats, and these end with the token read last. -/
theorem seats_of_alternatives (ih : SeatsAll c.size) {stop : Span} {r : Peeked Alternatives c.size}
    (ready : Ready c) (here : stop = c.last) (h : alternatives stop c = .ok r) :
    Seats c r.next r.value.parts r.value.nodes ∧ r.value.stop = r.next.last := by
  cases continued_of_alternatives h with
  | nothing => exact ⟨.refl c, here⟩
  | @branch us d next more r took some words lt one others value behind =>
    have ready' := took.ready ready
    obtain ⟨first, last⟩ := ih.branch lt ready' one
    obtain ⟨rest, stop⟩ := ih.alternatives (Nat.lt_trans next.shorter lt) (first.ready ready') last
      others
    have front : Seats c d [] [] := ⟨us, took, .inr (shut_of_forall some fun u hu ↦ by
      obtain ⟨n, kind⟩ := words u hu
      simp [kind]), .tokens us, nofun⟩
    rw [value, behind, parts_addBranch, nodes_addBranch]
    exact ⟨front.trans (first.trans rest), stop⟩
  | @otherwise t run n took word inside =>
    obtain ⟨seats, stop⟩ := ih.body t.shorter (took.ready ready)
      (took.atScript (by rw [word]; rfl) ready) inside
    exact ⟨(Seats.token took (by simp [word])).trans seats, stop⟩

/-- A statement with a grammar has a seat. -/
theorem seat_of_structured (ih : SeatsAll c.size) {r : Read Stmt c.size} (ready : Ready c)
    (h : structured c = .ok r) : Seat c r.next r.value := by
  cases structured_cases h with
  | @conditional name t first more took kind one others =>
    have script : isScript t.value.kind := by rw [kind]; rfl
    have behind := took.ready ready
    obtain ⟨front, last⟩ := ih.branch t.shorter behind one
    obtain ⟨rest, stop⟩ := ih.alternatives (Nat.lt_trans first.shorter t.shorter)
      (front.ready behind) last others
    obtain ⟨us, took', shut, runs, inside⟩ := front.trans rest
    refine (took.trans took').seat ready.laid rfl (ne_openTag_of_isScript script) ?_
      (congrArg (Span.through _) stop) ?_ ?_
    · rcases shut with rfl | shut
      · exact ⟨t.value, rfl, ne_openTag_of_isScript script⟩
      · exact shut.append [t.value]
    · refine .token t.value ?_
      show Runs us ((first.value.1 :: more.value.branches).flatMap Branch.parts ++ _)
      rw [List.flatMap_cons, List.append_assoc]
      exact runs
    · intro n hn
      replace hn : n ∈ (Stmt.conditional _ (first.value.1 :: more.value.branches)
        more.value.otherwise).nodes := hn
      rw [nodes_conditional] at hn
      exact (List.mem_cons.1 hn).imp_right fun hn ↦
        (inside n hn).mono (List.suffix_append [t.value] us).isInfix
  | @word name t s took kind worded =>
    have script : isScript t.value.kind := by rw [kind]; rfl
    exact (worded.forms took.last.symm).seat took (fun u hu ↦ List.mem_singleton.1 hu ▸ script)
      (fun _ _ ↦ rfl) (worded.made took (ne_openTag_of_isScript script))
      (isFlat_of_isOther worded.isOther) ready.laid
  | assignment h => exact seat_of_assignment ready.laid h
  | expression word h => exact seat_of_expressionStatement ready.laid word h

/-- What is read as a statement has a seat, or is one token that belongs to none. -/
theorem reads_of_statement (ih : SeatsAll c.size) {r : Read (Option Stmt) c.size} (ready : Ready c)
    (h : statement c = .ok r) : Reads c r.next r.value := by
  cases stated_of_statement h with
  | @separator t took kind =>
    simp only [List.mem_cons, List.not_mem_nil, or_false] at kind
    exact ⟨t.value, took, by rw [isSkipped]; rcases kind with kind | kind | kind <;> rw [kind]⟩
  | @html t took kind =>
    have text : t.value.kind ≠ .openTag := by simp [kind]
    have spans : Spans [t.value] t.value.span := ⟨t.value, t.value, rfl, rfl, text, text, rfl⟩
    refine ⟨[t.value], took, spans, .tokens _, fun n hn ↦ ?_⟩
    obtain rfl := List.mem_singleton.1 hn
    exact ⟨_, List.infix_refl _, spans, .tokens _⟩
  | @block t run took opens inside =>
    have brace : t.value.kind ≠ .openTag := by simp [opens]
    obtain ⟨⟨us, took', shut, runs, sits⟩, stop⟩ := ih.block t.shorter (took.ready ready) inside
    refine (took.trans took').seat ready.laid rfl brace ?_ (congrArg (Span.through _) stop)
      (.token t.value runs) fun n hn ↦ ?_
    · rcases shut with rfl | shut
      · exact ⟨t.value, rfl, brace⟩
      · exact shut.append [t.value]
    · exact (List.mem_cons.1 hn).imp_right fun hn ↦
        (sits n hn).mono (List.suffix_append [t.value] us).isInfix
  | grammar result => exact seat_of_structured ih ready result
  | skipped head result =>
    refine seat_of_skipped ready (fun u hu ↦ ?_) result
    have other := head u hu
    cases kind : u.kind with
    | openTag | closeTag | inlineHtml => simp [kind] at other
    | _ => rfl

/-- The statements of a body have seats, and it ends with the token read last. -/
theorem seats_of_body (ih : SeatsAll c.size) {r : Peeked (List Stmt × Span) c.size}
    (ready : Ready c) (script : AtScript c) (h : body c = .ok r) :
    Seats c r.next (r.value.1.map Stmt.span) (Stmt.nodesOfList r.value.1) ∧
      r.value.2 = r.next.last := by
  cases bodied_of_body h with
  | @block brace run took opens inside =>
    obtain ⟨seats, stop⟩ := ih.block brace.shorter (took.ready ready) inside
    exact ⟨(Seats.token took (by simp [opens])).trans seats, stop⟩
  | nothing => exact ⟨.refl c, rfl⟩
  | single result =>
    obtain ⟨us, took, tiles, sits, shut⟩ := (reads_of_statement ih ready result).tiles
    exact ⟨⟨us, took, .inr (shut script), tiles.runs, sits⟩, rfl⟩

/-- The statements of a block have seats, and it ends with its brace. -/
theorem seats_of_block (ih : SeatsAll c.size) {r : Read (List Stmt × Span) c.size}
    (ready : Ready c) (h : block c = .ok r) :
    Seats c r.next (r.value.1.map Stmt.span) (Stmt.nodesOfList r.value.1) ∧
      r.value.2 = r.next.last := by
  cases braced_of_block h with
  | close took closes => exact ⟨.token took (by simp [closes]), took.last.symm⟩
  | @more s rest result others =>
    obtain ⟨us, took, tiles, sits, -⟩ := (reads_of_statement ih ready result).tiles
    obtain ⟨⟨vs, took', shut, runs, sits'⟩, stop⟩ := ih.block s.shorter (took.ready ready) others
    have some : vs ≠ [] := by
      rintro rfl
      have shorter : rest.next.rest.length < s.next.rest.length := rest.shorter
      rw [took'.rest] at shorter
      exact absurd shorter (Nat.lt_irrefl _)
    refine ⟨?_, stop⟩
    show Seats c rest.next ((s.value.toList ++ rest.value.1).map Stmt.span)
      (Stmt.nodesOfList (s.value.toList ++ rest.value.1))
    rw [List.map_append, Stmt.nodesOfList_append]
    exact .behind took tiles.runs sits took' (shut.resolve_left some) runs sits'

/-- All that is read has seats, however many tokens are ahead. By induction on their number. -/
theorem seatsAll (n : Nat) : SeatsAll n := by
  induction n with
  | zero =>
    exact ⟨fun lt ↦ absurd lt (Nat.not_lt_zero _), fun lt ↦ absurd lt (Nat.not_lt_zero _),
      fun lt ↦ absurd lt (Nat.not_lt_zero _), fun lt ↦ absurd lt (Nat.not_lt_zero _)⟩
  | succ n ih =>
    have below : ∀ {c : Cursor}, c.size < n + 1 → SeatsAll c.size := fun lt ↦
      ih.mono (Nat.le_of_lt_succ lt)
    exact {
      branch := fun lt ready h ↦ seats_of_branch (below lt) ready h
      alternatives := fun lt ready here h ↦ seats_of_alternatives (below lt) ready here h
      body := fun lt ready script h ↦ seats_of_body (below lt) ready script h
      block := fun lt ready h ↦ seats_of_block (below lt) ready h }

/-! ### Scripts -/

/-- Statements tile the tokens ahead, and each of them, inside others or not, sits in these. -/
theorem tiles_of_statements {c : Cursor} {ss : List Stmt} (ready : Ready c)
    (h : statements c = .ok ss) : Tiles c.rest ss ∧ ∀ n ∈ Stmt.nodesOfList ss, n.Sits c.rest := by
  rcases cases_of_statements h with ⟨none, rfl⟩ | ⟨s, more, result, others, rfl⟩
  · rw [none]
    exact ⟨.nil, List.forall_mem_nil _⟩
  · have lt := s.shorter
    obtain ⟨us, took, tiles, sits, -⟩ := (reads_of_statement (seatsAll _) ready result).tiles
    obtain ⟨tiles', sits'⟩ := tiles_of_statements (took.ready ready) others
    rw [took.rest, Stmt.nodesOfList_append]
    refine ⟨tiles.append tiles', fun n hn ↦ ?_⟩
    rcases List.mem_append.1 hn with hn | hn
    · exact (sits n hn).mono (List.infix_append' [] us _)
    · exact (sits' n hn).mono (List.suffix_append us _).isInfix
termination_by c.size

/-- The statements of a script tile its tokens. What is inside a statement or an expression stands in
order within it, and every statement spans a run of tokens. -/
theorem tiles_of_parse {source : List Char} {body : List Stmt} (h : parse source = .ok body) :
    ∃ ts, tokenize source = .ok ts ∧ Tiles ts body ∧
      InOrder 0 (Text.byteLength source) (body.map Stmt.span) ∧
      (∀ n ∈ Stmt.nodesOfList body, (∃ us, us <:+: ts ∧ Spans us n.span) ∧
        InOrder n.span.start n.span.stop n.parts) ∧
      ∀ e ∈ Root.nodes (Stmt.rootsOfList body),
        InOrder e.span.start e.span.stop (e.parts.map Expr.span) := by
  obtain ⟨ts, m, lexes, made⟩ := exists_of_parse h
  obtain ⟨laid, within⟩ := lexes.laid
  have holds : Holds [] ts _ := holds_of_statements made
  obtain ⟨tiles, sits⟩ := tiles_of_statements (c := ⟨default, ts⟩)
    ⟨laid, (lexes.tagged (t := ⟨.closeTag, default, []⟩) fun _ ↦ .inl rfl).of_cons⟩ made
  refine ⟨ts, lexes.tokensFrom_eq, tiles, tiles.runs.inOrder laid fun t ht ↦ ?_, fun n hn ↦ ?_,
    fun e he ↦ holds.inOrder laid he⟩
  · have := within t ht
    rw [Place.offset_past, Place.start, Nat.zero_add] at this
    exact ⟨Nat.zero_le _, this.2⟩
  · obtain ⟨us, part, spans, -⟩ := sits n hn
    exact ⟨⟨us, part, spans⟩, (sits n hn).inOrder laid⟩

/-- A conditional statement with others inside, text, and an expression between tags. -/
theorem tiles_of_parse_conditional : ∃ ts body, tokenize
    "<?php if (f([1 => 2], $a)) \x7b const X = 1 + 2; \x7d else g(); ?> text <?= $a ?>".toList =
      .ok ts ∧ Tiles ts body ∧ body.length = 3 ∧ InOrder 0 75 (body.map Stmt.span) := by
  obtain ⟨body, parsed, length⟩ := exists_of_any (p := (·.length == 3)) (show (parse
    "<?php if (f([1 => 2], $a)) \x7b const X = 1 + 2; \x7d else g(); ?> text <?= $a ?>".toList
      ).toOption.any _ by decide +kernel)
  obtain ⟨ts, cut, tiles, inOrder, -⟩ := tiles_of_parse parsed
  refine ⟨ts, body, cut, tiles, beq_iff_eq.1 length, ?_⟩
  have bytes : Text.byteLength
      "<?php if (f([1 => 2], $a)) \x7b const X = 1 + 2; \x7d else g(); ?> text <?= $a ?>".toList =
        75 := by decide +kernel
  rwa [bytes] at inOrder

end ConfigScript.Script
