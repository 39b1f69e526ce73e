import ConfigScript.Proofs.Parsing.Spelling

/-!
# What the parser of statements accepts

For each function of the parser the ways in which it accepts what is ahead, with the tokens that it reads
itself and the results of the functions that it calls (`Stated`, `Structured` and so on, which follow the
branches of `statement`, `structured` and so on). What holds of all that is accepted is proved case by case
from these, by recursion on the number of tokens ahead.
-/

namespace ConfigScript.Script

variable {c d : Cursor}

/-! ### Single tokens -/

/-- Where a token was read that is of another kind, no token of that kind was ahead. -/
theorem Took.head_ne {t : Token} {k : TokenKind} (h : Took c [t] d) (ne : t.kind ≠ k) :
    ∀ u ∈ c.rest.head?, u.kind ≠ k := by
  intro u hu
  rw [head?_of_took h] at hu
  obtain rfl := Option.some.inj hu
  exact ne

/-- A keyword that was found ahead is one token, and that token is a word. -/
theorem took_of_keyword {w : String} {r : Read Token c.size} (h : c.keyword? w = some r) :
    Took c [r.value] r.next ∧ ∃ n, r.value.kind = .ident n := by
  obtain ⟨s, ts⟩ := c
  cases ts with
  | nil => cases h
  | cons t ts =>
    unfold Cursor.keyword? Cursor.accept? at h
    dsimp only at h
    split at h
    · rename_i is
      obtain rfl := Option.some.inj h
      rw [Token.isKeyword, beq_iff_eq] at is
      unfold Token.keyword? at is
      split at is
      · exact ⟨⟨rfl, rfl⟩, _, by assumption⟩
      · cases is
    · cases h

/-- What ends a statement: a semicolon that was read, or a closing tag that is ahead. -/
inductive Terminated (last : Span) {c : Cursor} : Peeked Span c.size → Prop
  | semicolon {t : Read Token c.size} (took : Took c [t.value] t.next)
    (kind : t.value.kind = .punct .semicolon) : Terminated last (t.map (·.span)).peeked
  | closeTag {t : Token} (head : c.rest.head? = some t) (kind : t.kind = .closeTag) :
    Terminated last (c.stay last)

/-- A statement was ended by a semicolon, or in front of a closing tag. -/
theorem terminated_of_terminator {last : Span} {r : Peeked Span c.size}
    (h : c.terminator last = .ok r) : Terminated last r := by
  unfold Cursor.terminator at h
  split at h
  · cases h
  rename_i t read
  have took := took_of_advance read
  split at h
  · rename_i semicolon
    obtain rfl := Except.ok.inj h
    exact .semicolon took (by rwa [Token.isPunct, beq_iff_eq] at semicolon)
  split at h
  · rename_i tag
    obtain rfl := Except.ok.inj h
    exact .closeTag (head?_of_took took) (beq_iff_eq.1 tag)
  · cases h

/-! ### Parts of statements -/

/-- The indices of a target: none, or one in brackets that may be left out, and those behind it. -/
inductive Indexed (stop : Span) {c : Cursor} (r : Peeked (List (Option Expr) × Span) c.size) : Prop
  | nothing (value : r.value = ([], stop)) (behind : r.next = c)
  | bare {o x : Token} {d e : Cursor} {more : Peeked (List (Option Expr) × Span) e.size}
    (took : Took c [o] d) (opens : o.kind = .punct .openBracket) (took' : Took d [x] e)
    (closes : x.kind = .punct .closeBracket) (lt : e.size < c.size)
    (others : indices x.span e = .ok more) (value : r.value = (none :: more.value.1, more.value.2))
    (behind : r.next = more.next)
  | index {o x : Token} {d e : Cursor} {i : Read Expr d.size}
    {more : Peeked (List (Option Expr) × Span) e.size} (took : Took c [o] d)
    (opens : o.kind = .punct .openBracket) (inner : expression 0 d = .ok i) (took' : Took i.next [x] e)
    (closes : x.kind = .punct .closeBracket) (lt : e.size < c.size)
    (others : indices x.span e = .ok more)
    (value : r.value = (some i.value :: more.value.1, more.value.2)) (behind : r.next = more.next)

/-- Indices that were read are none, or one in brackets and those behind it. -/
theorem indexed_of_indices {stop : Span} {r : Peeked (List (Option Expr) × Span) c.size}
    (h : indices stop c = .ok r) : Indexed stop r := by
  rw [indices] at h
  split at h
  · obtain rfl := Except.ok.inj h
    exact .nothing rfl rfl
  rename_i bracket read
  obtain ⟨took, opens⟩ := took_of_punct read
  split at h
  · rename_i close read'
    obtain ⟨more, others, h⟩ := exists_of_bind h
    obtain rfl := Except.ok.inj h
    obtain ⟨took', closes⟩ := took_of_punct read'
    exact .bare took opens took' closes (Nat.lt_trans close.shorter bracket.shorter) others rfl rfl
  · obtain ⟨index, inner, h⟩ := exists_of_bind h
    obtain ⟨close, read', h⟩ := exists_of_bind h
    obtain ⟨more, others, h⟩ := exists_of_bind h
    obtain rfl := Except.ok.inj h
    obtain ⟨x, took', closes, same⟩ := took_of_expect read'
    exact .index took opens inner took' closes
      (Nat.lt_trans close.shorter (Nat.lt_trans index.shorter bracket.shorter)) (same ▸ others) rfl rfl

/-- A target, by its parts. -/
inductive Targeted {c : Cursor} : Read Target c.size → Prop
  | mk {name : String} {t : Read Token c.size} {list : Peeked (List (Option Expr) × Span) t.next.size}
    (took : Took c [t.value] t.next) (kind : t.value.kind = .var name)
    (more : indices t.value.span t.next = .ok list) :
    Targeted (t.andMaybe (list.map fun (is, stop) ↦ ⟨name, is, t.value.span.through stop⟩))

/-- A target that was read is a variable and its indices. -/
theorem targeted_of_target {r : Read Target c.size} (h : target c = .ok r) : Targeted r := by
  rw [target] at h
  obtain ⟨t, read, h⟩ := exists_of_bind h
  split at h
  · rename_i name kind
    obtain ⟨list, more, h⟩ := exists_of_bind h
    obtain rfl := Except.ok.inj h
    exact .mk (took_of_advance read) kind more
  · cases h

/-- The names of a declaration: the last one, or one and those behind its comma. -/
inductive Declared {c : Cursor} (r : Read (List ConstItem) c.size) : Prop
  | last {name : String} {t x : Token} {d e : Cursor} {v : Read Expr e.size} (took : Took c [t] d)
    (kind : t.kind = .ident name) (took' : Took d [x] e) (assign : x.kind = .punct .assign)
    (inner : expression 0 e = .ok v) (value : r.value = [⟨name, t.span, v.value⟩])
    (behind : r.next = v.next)
  | more {name : String} {t x y : Token} {d e f : Cursor} {v : Read Expr e.size}
    {more : Read (List ConstItem) f.size} (took : Took c [t] d) (kind : t.kind = .ident name)
    (took' : Took d [x] e) (assign : x.kind = .punct .assign) (inner : expression 0 e = .ok v)
    (took'' : Took v.next [y] f) (comma : y.kind = .punct .comma) (lt : f.size < c.size)
    (others : constItems f = .ok more) (value : r.value = ⟨name, t.span, v.value⟩ :: more.value)
    (behind : r.next = more.next)

/-- Constants that were read are one, or one in front of a comma and others. -/
theorem declared_of_constItems {r : Read (List ConstItem) c.size} (h : constItems c = .ok r) :
    Declared r := by
  rw [constItems] at h
  obtain ⟨t, read, h⟩ := exists_of_bind h
  have took := took_of_advance read
  dsimp only at h
  split at h
  · rename_i name kind
    obtain ⟨sign, read', h⟩ := exists_of_bind h
    obtain ⟨value, inner, h⟩ := exists_of_bind h
    obtain ⟨x, took', assign, -⟩ := took_of_expect read'
    split at h
    · rename_i comma read''
      obtain ⟨more, others, h⟩ := exists_of_bind h
      obtain rfl := Except.ok.inj h
      obtain ⟨took'', comma'⟩ := took_of_punct read''
      exact .more took kind took' assign inner took'' comma' (Nat.lt_trans comma.shorter
        (Nat.lt_trans value.shorter (Nat.lt_trans sign.shorter t.shorter))) others rfl rfl
    · obtain rfl := Except.ok.inj h
      exact .last took kind took' assign inner rfl rfl
  · cases h

/-- Targets up to a parenthesis: none, or one and those behind it and maybe behind a comma. -/
inductive Emptied {c : Cursor} (r : Read (List Target × Span) c.size) : Prop
  | close {x : Token} (took : Took c [x] r.next) (closes : x.kind = .punct .closeParen)
    (value : r.value = ([], x.span))
  | more {us : List Token} {d : Cursor} {first : Read Target c.size}
    {more : Read (List Target × Span) d.size} (one : target c = .ok first)
    (took : Took first.next us d) (commas : ∀ u ∈ us, u.kind = .punct .comma) (lt : d.size < c.size)
    (others : unsetTargets d = .ok more)
    (value : r.value = (first.value :: more.value.1, more.value.2)) (behind : r.next = more.next)

/-- What was read as targets of `unset` is the closing parenthesis, or a target with the others behind
it. -/
theorem emptied_of_unsetTargets {r : Read (List Target × Span) c.size} (h : unsetTargets c = .ok r) :
    Emptied r := by
  rw [unsetTargets] at h
  split at h
  · rename_i close read
    obtain rfl := Except.ok.inj h
    obtain ⟨took, closes⟩ := took_of_punct read
    exact .close took closes rfl
  obtain ⟨first, one, h⟩ := exists_of_bind h
  split at h
  · rename_i comma read
    obtain ⟨more, others, h⟩ := exists_of_bind h
    obtain rfl := Except.ok.inj h
    obtain ⟨took, kind⟩ := took_of_punct read
    exact .more one took (List.forall_mem_singleton.2 kind)
      (Nat.lt_trans comma.shorter first.shorter) others rfl rfl
  · obtain ⟨more, others, h⟩ := exists_of_bind h
    obtain rfl := Except.ok.inj h
    exact .more one (.refl _) (List.forall_mem_nil _) first.shorter others rfl rfl

/-- The variables of a `global` statement: the last one, or one and those behind its comma. -/
inductive Globals {c : Cursor} (r : Read (List String) c.size) : Prop
  | last {name : String} {t : Token} (took : Took c [t] r.next) (kind : t.kind = .var name)
  | more {name : String} {t y : Token} {d e : Cursor} {more : Read (List String) e.size}
    (took : Took c [t] d) (kind : t.kind = .var name) (took' : Took d [y] e)
    (comma : y.kind = .punct .comma) (lt : e.size < c.size) (others : globalNames e = .ok more)
    (behind : r.next = more.next)

/-- The names of `global` that were read are one, or one in front of a comma and others. -/
theorem globals_of_globalNames {r : Read (List String) c.size} (h : globalNames c = .ok r) :
    Globals r := by
  rw [globalNames] at h
  obtain ⟨t, read, h⟩ := exists_of_bind h
  have took := took_of_advance read
  dsimp only at h
  split at h
  · rename_i name kind
    split at h
    · rename_i comma read'
      obtain ⟨more, others, h⟩ := exists_of_bind h
      obtain rfl := Except.ok.inj h
      obtain ⟨took', comma'⟩ := took_of_punct read'
      exact .more took kind took' comma' (Nat.lt_trans comma.shorter t.shorter) others rfl
    · obtain rfl := Except.ok.inj h
      exact .last took kind
  · cases h

/-! ### Statements without others inside -/

/-- An expression as a statement, by its parts. -/
inductive Expressed {c : Cursor} : Read Stmt c.size → Prop
  | mk {t : Token} {e : Read Expr c.size} {stop : Peeked Span e.next.size} (head : c.rest.head? = some t)
    (inner : expression 0 c = .ok e) (last : e.next.terminator e.value.span = .ok stop) :
    Expressed (e.andMaybe (stop.map fun stop ↦ .expr (t.span.through stop) e.value))

/-- A statement that was read as an expression is that expression and its end. -/
theorem expressed_of_expressionStatement {r : Read Stmt c.size} (h : expressionStatement c = .ok r) :
    Expressed r := by
  rw [expressionStatement] at h
  obtain ⟨first, read, h⟩ := exists_of_bind h
  obtain ⟨e, inner, h⟩ := exists_of_bind h
  obtain ⟨stop, last, h⟩ := exists_of_bind h
  obtain rfl := Except.ok.inj h
  exact .mk (head?_of_took (took_of_advance read)) inner last

/-- An assignment, by its parts. -/
inductive Assigned {c : Cursor} : Read Stmt c.size → Prop
  | mk {left : Read Target c.size} {sign : Read Token left.next.size} {op : AssignOp}
    {value : Read Expr sign.next.size} {stop : Peeked Span value.next.size}
    (first : target c = .ok left) (took : Took left.next [sign.value] sign.next)
    (hop : assignOp? sign.value = some op) (inner : expression 0 sign.next = .ok value)
    (last : value.next.terminator value.value.span = .ok stop) :
    Assigned ((left.andThen (sign.andThen (value.andMaybe stop))).map fun stop ↦
      .assign (left.value.span.through stop) op left.value value.value)

/-- An assignment that was read is a target, a sign, a value and an end. -/
theorem assigned_of_assignment {r : Read Stmt c.size} (h : assignment? c = .ok (some r)) :
    Assigned r := by
  rw [assignment?] at h
  obtain ⟨left, first, h⟩ := exists_of_bind h
  split at h
  · cases h
  rename_i sign read
  split at h
  · cases h
  rename_i op hop
  split at h
  · unfold Cursor.unsupported at h
    split at h <;> cases h
  obtain ⟨value, inner, h⟩ := exists_of_bind h
  obtain ⟨stop, last, h⟩ := exists_of_bind h
  obtain rfl := Option.some.inj (Except.ok.inj h)
  exact .mk first (took_of_advance read) hop inner last

/-- The statements behind the word `t`, by their parts. -/
inductive Worded (t : Token) {c : Cursor} : Peeked Stmt c.size → Prop
  | load {kind : IncludeKind} {e : Read Expr c.size} {stop : Peeked Span e.next.size}
    (inner : expression 0 c = .ok e) (last : e.next.terminator e.value.span = .ok stop) :
    Worded t (e.andMaybe (stop.map fun stop ↦ .load (t.span.through stop) kind e.value)).peeked
  | const {items : Read (List ConstItem) c.size} {stop : Peeked Span items.next.size}
    (list : constItems c = .ok items) (last : items.next.terminator items.next.last = .ok stop) :
    Worded t (items.andMaybe (stop.map fun stop ↦ .const (t.span.through stop) items.value)).peeked
  | unset {o : Token} {paren : Read Span c.size} {targets : Read (List Target × Span) paren.next.size}
    {stop : Peeked Span targets.next.size} (took : Took c [o] paren.next)
    (opens : o.kind = .punct .openParen) (list : unsetTargets paren.next = .ok targets)
    (last : targets.next.terminator targets.value.2 = .ok stop) :
    Worded t ((paren.andThen (targets.andMaybe stop)).map fun stop ↦
      .unset (t.span.through stop) targets.value.1).peeked
  | global {names : Read (List String) c.size} {stop : Peeked Span names.next.size}
    (list : globalNames c = .ok names) (last : names.next.terminator names.next.last = .ok stop) :
    Worded t (names.andMaybe (stop.map fun stop ↦ .global (t.span.through stop) names.value)).peeked
  | bare {stmt : Span → Stmt} {stop : Peeked Span c.size} (ending : stmt ∈ [Stmt.ret, .exit])
    (last : c.terminator t.span = .ok stop) : Worded t (stop.map fun stop ↦ stmt (t.span.through stop))
  | ending {stmt : Span → Stmt} {e : Read Expr c.size} {stop : Peeked Span e.next.size}
    (ending : stmt ∈ [Stmt.ret, .exit]) (inner : expression 0 c = .ok e)
    (last : e.next.terminator e.next.last = .ok stop) :
    Worded t (e.andMaybe (stop.map fun stop ↦ stmt (t.span.through stop))).peeked

/-- A statement that ends the script was read by the rule of its word. -/
theorem worded_of_ending {t : Token} {stmt : Span → Stmt} {r : Peeked Stmt c.size}
    (ending : stmt ∈ [Stmt.ret, .exit]) (h : endingStatement t.span stmt c = .ok r) : Worded t r := by
  rw [endingStatement] at h
  split at h
  · obtain ⟨stop, last, h⟩ := exists_of_bind h
    obtain rfl := Except.ok.inj h
    exact .bare ending last
  · obtain ⟨e, inner, h⟩ := exists_of_bind h
    obtain ⟨stop, last, h⟩ := exists_of_bind h
    obtain rfl := Except.ok.inj h
    exact .ending ending inner last

/-- A statement that begins with a word was read by the rule of that word, whichever it is. -/
theorem worded_of_word {word : String} {t : Token} {r : Peeked Stmt c.size}
    (h : wordStatement? word t c = some (.ok r)) : Worded t r := by
  have wide : ∀ {x : Parse (Read Stmt c.size)}, some (x.map Read.peeked) = some (.ok r) →
      ∃ q, x = .ok q ∧ q.peeked = r := by
    intro x same
    cases x with
    | error e => cases same
    | ok q => exact ⟨q, rfl, Except.ok.inj (Option.some.inj same)⟩
  unfold wordStatement? at h
  dsimp only at h
  split at h
  · obtain ⟨q, read, rfl⟩ := wide h
    rw [loadStatement] at read
    obtain ⟨e, inner, read⟩ := exists_of_bind read
    obtain ⟨stop, last, read⟩ := exists_of_bind read
    obtain rfl := Except.ok.inj read
    exact .load inner last
  split at h
  · obtain ⟨q, read, rfl⟩ := wide h
    rw [constStatement] at read
    obtain ⟨items, list, read⟩ := exists_of_bind read
    obtain ⟨stop, last, read⟩ := exists_of_bind read
    obtain rfl := Except.ok.inj read
    exact .const list last
  split at h
  · obtain ⟨q, read, rfl⟩ := wide h
    rw [unsetStatement] at read
    obtain ⟨paren, read', read⟩ := exists_of_bind read
    obtain ⟨targets, list, read⟩ := exists_of_bind read
    obtain ⟨stop, last, read⟩ := exists_of_bind read
    obtain rfl := Except.ok.inj read
    obtain ⟨o, took, opens, -⟩ := took_of_expect read'
    exact .unset took opens list last
  split at h
  · obtain ⟨q, read, rfl⟩ := wide h
    rw [globalStatement] at read
    obtain ⟨names, list, read⟩ := exists_of_bind read
    obtain ⟨stop, last, read⟩ := exists_of_bind read
    obtain rfl := Except.ok.inj read
    exact .global list last
  split at h
  · exact worded_of_ending (by simp) (Option.some.inj h)
  split at h
  · exact worded_of_ending (by simp) (Option.some.inj h)
  split at h
  · cases h
  · cases h

/-! ### Skipped statements -/

/-- The rest of a statement that is skipped, in which the brackets `opened` are open: it stays in front of
what ends it, ends behind that, or goes on behind one more token. -/
inductive Skipping (opened : List Token) {c : Cursor} (r : Peeked Unit c.size) : Prop
  | stays (done : opened = []) (front : ∀ t ∈ c.rest.head?, closesBracket t ∨ t.kind = .closeTag)
    (behind : r.next = c)
  | semicolon {t : Token} (done : opened = []) (took : Took c [t] r.next)
    (kind : t.kind = .punct .semicolon)
  | block {t o : Token} (last : opened = [o]) (took : Took c [t] r.next) (closes : closesBracket t)
  | opening {t : Token} {d : Cursor} {more : Peeked Unit d.size} (took : Took c [t] d)
    (lt : d.size < c.size) (opens : opensBracket t) (rest : skipRest (t :: opened) d = .ok more)
    (behind : r.next = more.next)
  | closing {t o : Token} {outer : List Token} {d : Cursor} {more : Peeked Unit d.size}
    (inner : opened = o :: outer) (took : Took c [t] d) (lt : d.size < c.size)
    (closes : closesBracket t) (rest : skipRest outer d = .ok more) (behind : r.next = more.next)
  | plain {t : Token} {d : Cursor} {more : Peeked Unit d.size} (took : Took c [t] d)
    (lt : d.size < c.size) (opens : opensBracket t = false) (closes : closesBracket t = false)
    (tag : opened = [] → t.kind ≠ .closeTag) (rest : skipRest opened d = .ok more)
    (behind : r.next = more.next)

/-- The rest of a statement was skipped in one of these ways: it ended here, with a semicolon or with the
bracket that closes its block, or it went on over an opening bracket, a closing one or another token. The
cases follow the branches of `skipRest`, which no later proof has to open. -/
theorem skipping_of_skipRest {opened : List Token} {r : Peeked Unit c.size}
    (h : skipRest opened c = .ok r) : Skipping opened r := by
  rw [skipRest] at h
  split at h
  · rename_i read
    split at h
    · rename_i none
      obtain rfl := Except.ok.inj h
      exact .stays (List.isEmpty_iff.1 none) (by simp [rest_of_advance read]) rfl
    · cases h
  rename_i t read
  have took := took_of_advance read
  -- Where skipping goes on, the rest behind the token was skipped.
  have go : ∀ {inner : List Token}, (skipRest inner t.next).map (fun rest ↦ (t.andMaybe rest).peeked) =
      .ok r → ∃ more, skipRest inner t.next = .ok more ∧ r.next = more.next := by
    intro inner h
    cases rest : skipRest inner t.next with
    | error e => rw [rest] at h; cases h
    | ok more =>
      rw [rest] at h
      obtain rfl := Except.ok.inj h
      exact ⟨more, rfl, rfl⟩
  dsimp only at h
  split at h
  · rename_i opens
    obtain ⟨more, rest, behind⟩ := go h
    exact .opening took t.shorter opens rest behind
  rename_i opens
  rw [Bool.not_eq_true] at opens
  -- Without an open bracket, the token may end the statement; otherwise it may close that bracket.
  split at h
  · split at h
    · rename_i semicolon
      obtain rfl := Except.ok.inj h
      exact .semicolon rfl took (by rwa [Token.isPunct, beq_iff_eq] at semicolon)
    split at h
    · rename_i ends
      obtain rfl := Except.ok.inj h
      refine .stays rfl (fun u hu ↦ ?_) rfl
      rw [head?_of_took took] at hu
      obtain rfl := Option.some.inj hu
      rwa [Bool.or_eq_true, beq_iff_eq] at ends
    · rename_i goesOn
      rw [Bool.or_eq_true, beq_iff_eq, not_or, Bool.not_eq_true] at goesOn
      obtain ⟨more, rest, behind⟩ := go h
      exact .plain took t.shorter opens goesOn.1 (fun _ ↦ goesOn.2) rest behind
  · rename_i o outer
    split at h
    · rename_i closes
      rw [Bool.not_eq_true'] at closes
      obtain ⟨more, rest, behind⟩ := go h
      have inside : o :: outer = [] → t.value.kind ≠ .closeTag := fun none ↦
        absurd none (List.cons_ne_nil o outer)
      exact .plain took t.shorter opens closes inside rest behind
    rename_i closes
    rw [Bool.not_eq_true', Bool.not_eq_false] at closes
    split at h
    · rename_i block
      obtain rfl := Except.ok.inj h
      rw [Bool.and_eq_true, Bool.and_eq_true, List.isEmpty_iff] at block
      exact .block (by rw [block.1.1]) took closes
    · obtain ⟨more, rest, behind⟩ := go h
      exact .closing rfl took t.shorter closes rest behind

/-- A skipped statement, by its first token and the rest. -/
inductive Passed {c : Cursor} : Read Stmt c.size → Prop
  | mk {t : Read Token c.size} {rest : Peeked Unit t.next.size} (took : Took c [t.value] t.next)
    (closes : closesBracket t.value = false)
    (more : skipRest (if opensBracket t.value then [t.value] else []) t.next = .ok rest) :
    Passed ((t.andMaybe rest).map fun _ ↦ .opaqueStmt (t.value.span.through rest.next.last))

/-- A statement that was skipped is its first token and the rest that was skipped behind it. -/
theorem passed_of_opaqueStatement {r : Read Stmt c.size} (h : opaqueStatement c = .ok r) :
    Passed r := by
  rw [opaqueStatement] at h
  obtain ⟨t, read, h⟩ := exists_of_bind h
  split at h
  · cases h
  rename_i closes
  obtain ⟨rest, more, h⟩ := exists_of_bind h
  obtain rfl := Except.ok.inj h
  exact .mk (took_of_advance read) (Bool.eq_false_iff.2 closes) more

/-! ### Statements with others inside -/

/-- A branch, by its parts. -/
inductive Branched {c : Cursor} : Read (Branch × Span) c.size → Prop
  | mk {o x : Token} {paren : Read Span c.size} {condition : Read Expr paren.next.size}
    {close : Read Span condition.next.size} {run : Peeked (List Stmt × Span) close.next.size}
    (took : Took c [o] paren.next) (opens : o.kind = .punct .openParen)
    (inner : expression 0 paren.next = .ok condition) (took' : Took condition.next [x] close.next)
    (closes : x.kind = .punct .closeParen) (lt : close.next.size < c.size)
    (inside : body close.next = .ok run) :
    Branched ((paren.andThen (condition.andThen (close.andMaybe run))).map fun (ss, stop) ↦
      (.mk condition.value ss, stop))

/-- A branch that was read is a condition in parentheses and a body. -/
theorem branched_of_branch {r : Read (Branch × Span) c.size} (h : branch c = .ok r) : Branched r := by
  rw [branch] at h
  obtain ⟨paren, read, h⟩ := exists_of_bind h
  obtain ⟨condition, inner, h⟩ := exists_of_bind h
  obtain ⟨close, read', h⟩ := exists_of_bind h
  dsimp only at h
  split at h
  · unfold Cursor.unsupported at h
    split at h <;> cases h
  obtain ⟨run, inside, h⟩ := exists_of_bind h
  obtain rfl := Except.ok.inj h
  obtain ⟨o, took, opens, -⟩ := took_of_expect read
  obtain ⟨x, took', closes, -⟩ := took_of_expect read'
  exact .mk took opens inner took' closes
    (Nat.lt_trans close.shorter (Nat.lt_trans condition.shorter paren.shorter)) inside

/-- What follows a branch, which ends with `stop`: nothing, one more branch behind a word or two, or the
statements that run otherwise. -/
inductive Continued (stop : Span) {c : Cursor} : Peeked Alternatives c.size → Prop
  | nothing : Continued stop (c.stay ⟨[], none, stop⟩)
  | branch {us : List Token} {d : Cursor} {next : Read (Branch × Span) d.size}
    {more : Peeked Alternatives next.next.size} {r : Peeked Alternatives c.size} (took : Took c us d)
    (some : us ≠ []) (words : ∀ u ∈ us, ∃ n, u.kind = .ident n) (lt : d.size < c.size)
    (one : branch d = .ok next) (others : alternatives next.value.2 next.next = .ok more)
    (value : r.value = more.value.addBranch next.value.1) (behind : r.next = more.next) :
    Continued stop r
  | otherwise {t : Read Token c.size} {run : Peeked (List Stmt × Span) t.next.size} {n : String}
    (took : Took c [t.value] t.next) (word : t.value.kind = .ident n) (inside : body t.next = .ok run) :
    Continued stop (t.andMaybe (run.map fun (ss, stop) ↦ ⟨[], some ss, stop⟩)).peeked

/-- The alternatives of a conditional that were read begin with `elseif`, with `else if` or with `else`,
or there are none. -/
theorem continued_of_alternatives {stop : Span} {r : Peeked Alternatives c.size}
    (h : alternatives stop c = .ok r) : Continued stop r := by
  rw [alternatives] at h
  split at h
  · rename_i word read
    obtain ⟨next, one, h⟩ := exists_of_bind h
    obtain ⟨more, others, h⟩ := exists_of_bind h
    obtain rfl := Except.ok.inj h
    obtain ⟨took, ident⟩ := took_of_keyword read
    exact .branch took (List.cons_ne_nil _ _) (List.forall_mem_singleton.2 ident) word.shorter one
      others rfl rfl
  split at h
  · obtain rfl := Except.ok.inj h
    exact .nothing
  rename_i word read
  obtain ⟨took, n, ident⟩ := took_of_keyword read
  dsimp only at h
  split at h
  · rename_i again read'
    obtain ⟨next, one, h⟩ := exists_of_bind h
    obtain ⟨more, others, h⟩ := exists_of_bind h
    obtain rfl := Except.ok.inj h
    obtain ⟨took', ident'⟩ := took_of_keyword read'
    exact .branch (took.trans took') (List.cons_ne_nil _ _)
      (List.forall_mem_cons.2 ⟨⟨n, ident⟩, List.forall_mem_singleton.2 ident'⟩)
      (Nat.lt_trans again.shorter word.shorter) one others rfl rfl
  · obtain ⟨run, inside, h⟩ := exists_of_bind h
    obtain rfl := Except.ok.inj h
    exact .otherwise took ident inside

/-- What a condition governs: a block, nothing at the end, or a single statement. -/
inductive Bodied {c : Cursor} : Peeked (List Stmt × Span) c.size → Prop
  | block {brace : Read Token c.size} {run : Read (List Stmt × Span) brace.next.size}
    (took : Took c [brace.value] brace.next) (opens : brace.value.kind = .punct .openBrace)
    (inside : block brace.next = .ok run) : Bodied (brace.andThen run).peeked
  | nothing (none : c.rest = []) : Bodied (c.stay ([], c.last))
  | single {s : Read (Option Stmt) c.size} (h : statement c = .ok s) :
    Bodied (s.map fun stmt ↦ (stmt.toList, s.next.last)).peeked

/-- A body that was read is a block in braces, a single statement, or nothing at the end of the tokens. -/
theorem bodied_of_body {r : Peeked (List Stmt × Span) c.size} (h : body c = .ok r) : Bodied r := by
  rw [body] at h
  split at h
  · rename_i brace read
    obtain ⟨run, inside, h⟩ := exists_of_bind h
    obtain rfl := Except.ok.inj h
    obtain ⟨took, opens⟩ := took_of_punct read
    exact .block took opens inside
  split at h
  · rename_i none
    obtain rfl := Except.ok.inj h
    exact .nothing (List.isEmpty_iff.1 none)
  · obtain ⟨s, result, h⟩ := exists_of_bind h
    obtain rfl := Except.ok.inj h
    exact .single result

/-- The rest of a block: the closing brace, or a statement and the rest behind it. -/
inductive Braced {c : Cursor} : Read (List Stmt × Span) c.size → Prop
  | close {t : Read Token c.size} (took : Took c [t.value] t.next)
    (closes : t.value.kind = .punct .closeBrace) : Braced (t.map fun t ↦ ([], t.span))
  | more {s : Read (Option Stmt) c.size} {more : Read (List Stmt × Span) s.next.size}
    (h : statement c = .ok s) (others : block s.next = .ok more) :
    Braced (s.andThen (more.map fun (rest, stop) ↦ (s.value.toList ++ rest, stop)))

/-- The rest of a block that was read is its closing brace, or a statement and the rest behind it. -/
theorem braced_of_block {r : Read (List Stmt × Span) c.size} (h : block c = .ok r) : Braced r := by
  rw [block] at h
  split at h
  · rename_i close read
    obtain rfl := Except.ok.inj h
    obtain ⟨took, closes⟩ := took_of_punct read
    exact .close took closes
  · obtain ⟨s, result, h⟩ := exists_of_bind h
    obtain ⟨more, others, h⟩ := exists_of_bind h
    obtain rfl := Except.ok.inj h
    exact .more result others

/-- The statements that have a grammar, by what reads them. -/
inductive Structured {c : Cursor} : Read Stmt c.size → Prop
  | conditional {name : String} {t : Read Token c.size} {first : Read (Branch × Span) t.next.size}
    {more : Peeked Alternatives first.next.size} (took : Took c [t.value] t.next)
    (kind : t.value.kind = .ident name) (one : branch t.next = .ok first)
    (others : alternatives first.value.2 first.next = .ok more) :
    Structured ((t.andThen (first.andMaybe more)).map fun more ↦
      .conditional (t.value.span.through more.stop) (first.value.1 :: more.branches) more.otherwise)
  | word {name : String} {t : Read Token c.size} {r : Peeked Stmt t.next.size}
    (took : Took c [t.value] t.next) (kind : t.value.kind = .ident name) (worded : Worded t.value r) :
    Structured (t.andMaybe r)
  | assignment {r : Read Stmt c.size} (h : assignment? c = .ok (some r)) : Structured r
  | expression {r : Read Stmt c.size} (word : ∀ u ∈ c.rest.head?, u.kind ≠ .ident "echo")
    (h : expressionStatement c = .ok r) : Structured r

/-- A statement with a grammar was read by one of the rules: a conditional, an assignment, a statement
that begins with a word, or an expression. -/
theorem structured_cases {r : Read Stmt c.size} (h : structured c = .ok r) : Structured r := by
  rw [structured] at h
  obtain ⟨t, read, h⟩ := exists_of_bind h
  have took := took_of_advance read
  dsimp only at h
  split at h
  · rename_i name kind
    split at h
    · obtain ⟨first, one, h⟩ := exists_of_bind h
      obtain ⟨more, others, h⟩ := exists_of_bind h
      obtain rfl := Except.ok.inj h
      exact .conditional took kind one others
    · split at h
      · rename_i result word
        obtain ⟨s, same, h⟩ := exists_of_bind h
        obtain rfl := Except.ok.inj h
        subst same
        exact .word took kind (worded_of_word word)
      · rename_i noWord
        refine .expression (took.head_ne fun echo ↦ ?_) h
        obtain rfl := TokenKind.ident.inj (kind.symm.trans echo)
        cases noWord
  · rename_i name kind
    obtain ⟨found, assignment, h⟩ := exists_of_bind h
    split at h
    · obtain rfl := Except.ok.inj h
      exact .assignment assignment
    · exact .expression (took.head_ne (by simp [kind])) h
  · rename_i other _
    exact .expression (took.head_ne (other "echo")) h

/-- A statement, or what stands between statements, by what reads it. -/
inductive Stated {c : Cursor} : Read (Option Stmt) c.size → Prop
  | separator {t : Read Token c.size} (took : Took c [t.value] t.next)
    (kind : t.value.kind ∈ [TokenKind.openTag, .closeTag, .punct .semicolon]) :
    Stated (t.map fun _ ↦ none)
  | html {t : Read Token c.size} (took : Took c [t.value] t.next)
    (kind : t.value.kind = .inlineHtml) : Stated (t.map fun t ↦ some (.inlineHtml t.span))
  | block {t : Read Token c.size} {run : Read (List Stmt × Span) t.next.size}
    (took : Took c [t.value] t.next) (opens : t.value.kind = .punct .openBrace)
    (inside : block t.next = .ok run) :
    Stated (t.andThen (run.map fun (ss, stop) ↦ some (.block (t.value.span.through stop) ss)))
  | grammar {s : Read Stmt c.size} (h : structured c = .ok s) : Stated (s.map some)
  | skipped {s : Read Stmt c.size}
    (head : ∀ t ∈ c.rest.head?, t.kind ∉ [TokenKind.openTag, .closeTag, .inlineHtml])
    (h : opaqueStatement c = .ok s) : Stated (s.map some)

/-- A statement was read by one of the rules: a tag or a semicolon, text outside of the script, a block, a
statement with a grammar, or one that is skipped because no grammar fits. -/
theorem stated_of_statement {r : Read (Option Stmt) c.size} (h : statement c = .ok r) : Stated r := by
  rw [statement] at h
  obtain ⟨t, read, h⟩ := exists_of_bind h
  have took := took_of_advance read
  dsimp only at h
  split at h
  · obtain rfl := Except.ok.inj h
    exact .separator took (by simp [*])
  · obtain rfl := Except.ok.inj h
    exact .separator took (by simp [*])
  · obtain rfl := Except.ok.inj h
    exact .separator took (by simp [*])
  · rename_i kind
    obtain rfl := Except.ok.inj h
    exact .html took kind
  · rename_i opens
    obtain ⟨run, inside, h⟩ := exists_of_bind h
    obtain rfl := Except.ok.inj h
    exact .block took opens inside
  · cases h
  · rename_i noOpen noClose _ noText _ _
    split at h
    · rename_i s result
      obtain rfl := Except.ok.inj h
      exact .grammar result
    · obtain ⟨skipped, result, h⟩ := exists_of_bind h
      obtain rfl := Except.ok.inj h
      refine .skipped (fun u hu ↦ ?_) result
      rw [head?_of_took took] at hu
      obtain rfl := Option.some.inj hu
      simpa using ⟨noOpen, noClose, noText⟩

/-- A script is at its end, or there is a statement and the rest behind it. -/
theorem cases_of_statements {ss : List Stmt} (h : statements c = .ok ss) :
    c.rest = [] ∧ ss = [] ∨ ∃ (s : Read (Option Stmt) c.size) (more : List Stmt),
      statement c = .ok s ∧ statements s.next = .ok more ∧ ss = s.value.toList ++ more := by
  rw [statements] at h
  split at h
  · rename_i none
    obtain rfl := Except.ok.inj h
    exact .inl ⟨List.isEmpty_iff.1 none, rfl⟩
  · obtain ⟨s, result, h⟩ := exists_of_bind h
    obtain ⟨more, others, h⟩ := exists_of_bind h
    obtain rfl := Except.ok.inj h
    exact .inr ⟨s, more, result, others, rfl⟩

end ConfigScript.Script
