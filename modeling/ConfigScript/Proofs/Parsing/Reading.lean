import ConfigScript.Proofs.Parsing.Rules

/-!
# What the parser of expressions accepts

For each function of the parser the ways in which it accepts what is ahead, with the tokens that it reads
itself (`Took`) and the results of the functions that it calls (`Operated`, `Suffixed` and so on, which
follow the branches of `operators`, `suffixes` and so on). What holds of all that is accepted is proved
case by case from these, by recursion on the number of tokens ahead.
-/

namespace ConfigScript.Script

/-! ### Tokens that were read -/

/-- The span of the last token; `s` if there is none. -/
def lastSpan (s : Span) : List Token → Span
  | [] => s
  | t :: ts => lastSpan t.span ts

@[simp]
theorem lastSpan_nil (s : Span) : lastSpan s [] = s := rfl

@[simp]
theorem lastSpan_cons (s : Span) (t : Token) (ts : List Token) :
    lastSpan s (t :: ts) = lastSpan t.span ts := rfl

/-- The last token behind others is the last of all. -/
@[simp]
theorem lastSpan_append (s : Span) (as bs : List Token) :
    lastSpan s (as ++ bs) = lastSpan (lastSpan s as) bs := by
  induction as generalizing s with
  | nil => rfl
  | cons t as ih => exact ih t.span

/-- From `c` to `next` the tokens `pre` were read. -/
structure Took (c : Cursor) (pre : List Token) (next : Cursor) : Prop where
  rest : c.rest = pre ++ next.rest
  last : next.last = lastSpan c.last pre

variable {c d e : Cursor}

namespace Took

variable {t : Token} {pre pre' : List Token}

theorem refl (c : Cursor) : Took c [] c := ⟨rfl, rfl⟩

theorem trans (h : Took c pre d) (h' : Took d pre' e) : Took c (pre ++ pre') e :=
  ⟨by rw [h.rest, h'.rest, List.append_assoc], by rw [h'.last, h.last, lastSpan_append]⟩

theorem cons (h : Took c [t] d) (h' : Took d pre e) : Took c (t :: pre) e := h.trans h'

/-- Something was read where fewer tokens are ahead. -/
theorem ne_nil (h : Took c pre d) (lt : d.size < c.size) : pre ≠ [] := by
  rintro rfl
  rw [Cursor.size, Cursor.size, h.rest] at lt
  exact Nat.lt_irrefl _ lt

/-- The token ahead is the first one that is read. -/
theorem head? (h : Took c pre d) (some : pre ≠ []) : c.rest.head? = pre.head? := by
  obtain ⟨t, us, rfl⟩ := List.exists_cons_of_ne_nil some
  rw [h.rest]
  rfl

/-- What holds of the first token that was read holds of the one ahead. -/
theorem forall_head {P : Token → Prop} (h : Took c (t :: pre) d) (here : P t) :
    ∀ u ∈ c.rest.head?, P u := by
  intro u hu
  rw [h.rest] at hu
  obtain rfl := Option.some.inj hu
  exact here

end Took

/-- The first token that was read was ahead. -/
theorem head?_of_took {t : Token} {ts : List Token} (h : Took c (t :: ts) d) :
    c.rest.head? = some t := by
  rw [h.rest]
  rfl

/-- A computation in two steps succeeds if both of them do. -/
theorem exists_of_bind {α β : Type} {x : Parse α} {f : α → Parse β} {b : β}
    (h : x >>= f = .ok b) : ∃ a, x = .ok a ∧ f a = .ok b := by
  cases x with
  | error e => cases h
  | ok a => exact ⟨a, rfl, h⟩

/-- One more token was read where the parser advanced. -/
theorem took_of_advance {r : Read Token c.size} (h : c.advance = .ok r) : Took c [r.value] r.next := by
  obtain ⟨s, ts⟩ := c
  cases ts with
  | nil => cases h
  | cons t ts =>
    obtain rfl := Except.ok.inj h
    exact ⟨rfl, rfl⟩

/-- The parser fails to advance at the end only. -/
theorem rest_of_advance {m : Misfit} (h : c.advance = .error m) : c.rest = [] := by
  obtain ⟨s, ts⟩ := c
  cases ts with
  | nil => rfl
  | cons t ts =>
    obtain ⟨_, step⟩ := Cursor.advance_cons s t ts
    cases step.symm.trans h

/-- Punctuation that was found ahead is one token. -/
theorem took_of_punct {p : Punct} {r : Read Token c.size} (h : c.punct? p = some r) :
    Took c [r.value] r.next ∧ r.value.kind = .punct p := by
  obtain ⟨s, ts⟩ := c
  cases ts with
  | nil => cases h
  | cons t ts =>
    by_cases hk : t.kind = .punct p
    · obtain ⟨_, read⟩ := Cursor.punct?_of_kind (s := s) (r := ts) hk
      obtain rfl := Option.some.inj (h.symm.trans read)
      exact ⟨⟨rfl, rfl⟩, hk⟩
    · rw [Cursor.punct?_eq_none hk] at h
      cases h

/-- Where punctuation was not found, the token ahead is another. -/
theorem ne_of_atPunct {p : Punct} (h : c.atPunct p = false) : ∀ t ∈ c.rest.head?, t.kind ≠ .punct p := by
  intro t ht is
  rw [Cursor.atPunct, Cursor.current?, ht, Option.any_some, Token.isPunct, is] at h
  simp at h

/-- Punctuation that was expected was there, as one token. -/
theorem took_of_expect {p : Punct} {r : Read Span c.size} (h : c.expect p = .ok r) :
    ∃ t, Took c [t] r.next ∧ t.kind = .punct p ∧ t.span = r.value := by
  rw [Cursor.expect] at h
  obtain ⟨t, read, h⟩ := exists_of_bind h
  split at h
  · rename_i is
    obtain rfl := Except.ok.inj h
    exact ⟨t.value, took_of_advance read, beq_iff_eq.1 is, rfl⟩
  · cases h

/-- A binary operator that was found ahead is one token, which binds as tightly as asked for. -/
theorem exists_of_binary {min : Nat} {r : Read Operator c.size} (h : binary? min c = some r) :
    ∃ t, Took c [t] r.next ∧ operator? t = some r.value ∧ min ≤ r.value.leftBinding := by
  obtain ⟨s, _ | ⟨t, ts⟩⟩ := c
  · cases h
  · dsimp only [binary?] at h
    split at h
    · rename_i o ho
      split at h
      · cases h
      · rename_i tight
        obtain rfl := Option.some.inj h
        exact ⟨t, ⟨rfl, rfl⟩, ho, Nat.le_of_not_lt tight⟩
    · cases h

/-- A cast that was found ahead is three tokens. -/
theorem exists_of_cast {r : Read CastKind c.size} (h : cast? c = some r) :
    ∃ o w d, Took c [o, w, d] r.next ∧ o.kind = .punct .openParen ∧ castKind? w = some r.value ∧
      d.kind = .punct .closeParen := by
  obtain ⟨s, ts⟩ := c
  unfold cast? at h
  split at h
  · rename_i t w close ts heq
    split at h
    · rename_i marks
      obtain ⟨kind, hk, rfl⟩ := Option.map_eq_some_iff.1 h
      rw [Bool.and_eq_true, Token.isPunct, Token.isPunct, beq_iff_eq, beq_iff_eq] at marks
      exact ⟨t, w, close, ⟨heq, rfl⟩, marks.1, hk, marks.2⟩
    · cases h
  · cases h

/-! ### Calls and members -/

/-- What follows a name: a call, or nothing. -/
inductive Called (last : Span) {c : Cursor} (r : Peeked Span c.size) : Prop
  | call {o : Token} {d : Cursor} {args : Read (List Expr × Span) d.size} (took : Took c [o] d)
    (opens : o.kind = .punct .openParen) (lt : d.size < c.size) (list : arguments d = .ok args)
    (value : r.value = args.value.2) (behind : r.next = args.next)
  | nothing (ahead : c.atPunct .openParen = false) (value : r.value = last) (behind : r.next = c)

/-- What follows a name was read as a call or as nothing. -/
theorem called_of_callSuffix {last : Span} {r : Peeked Span c.size} (h : callSuffix last c = .ok r) :
    Called last r := by
  rw [callSuffix] at h
  split at h
  · rename_i paren read
    obtain ⟨args, list, h⟩ := exists_of_bind h
    obtain rfl := Except.ok.inj h
    obtain ⟨took, opens⟩ := took_of_punct read
    exact .call took opens paren.shorter list rfl rfl
  · rename_i none
    obtain rfl := Except.ok.inj h
    exact .nothing (Cursor.punct?_eq_none_iff.1 none) rfl rfl

/-- A name and what follows it, which belong to an object or a class. -/
inductive Accessed (start : Span) (c : Cursor) (a : Expr) (next : Cursor) : Prop
  | mk {m : Token} {d : Cursor} {stop : Peeked Span d.size} (took : Took c [m] d)
    (lt : d.size < c.size) (name : isMemberName m) (call : callSuffix m.span d = .ok stop)
    (value : a = .opaqueExpr (start.through stop.value)) (behind : next = stop.next)

/-- A member that was read is its name and a call, or its name alone. -/
theorem accessed_of_member {start : Span} {r : Read Expr c.size} (h : member start c = .ok r) :
    Accessed start c r.value r.next := by
  rw [member] at h
  obtain ⟨m, read, h⟩ := exists_of_bind h
  split at h
  · rename_i name
    obtain ⟨stop, call, h⟩ := exists_of_bind h
    obtain rfl := Except.ok.inj h
    exact .mk (took_of_advance read) m.shorter name call rfl rfl
  · cases h

/-- What `new` creates was read as the name of a class and a call, or that name alone. -/
theorem accessed_of_creation {start : Span} {r : Peeked Expr c.size} (h : creation start c = .ok r) :
    Accessed start c r.value r.next := by
  rw [creation] at h
  obtain ⟨m, read, h⟩ := exists_of_bind h
  split at h
  · rename_i name
    obtain ⟨stop, call, h⟩ := exists_of_bind h
    obtain rfl := Except.ok.inj h
    exact .mk (took_of_advance read) m.shorter name call rfl rfl
  · cases h

/-- What follows an operand: nothing that belongs to it, or an index, a member or arguments, and what
follows these. -/
inductive Suffixed (e : Expr) {c : Cursor} (r : Peeked Expr c.size) : Prop
  | stays (ends : ∀ t ∈ c.rest.head?, endsOperand t) (value : r.value = e) (behind : r.next = c)
  | index {t x : Token} {d f : Cursor} {i : Read Expr d.size} {whole : Peeked Expr f.size}
    (took : Took c [t] d) (opens : t.kind = .punct .openBracket) (lt : d.size < c.size)
    (some : d.atPunct .closeBracket = false) (inner : expression 0 d = .ok i)
    (took' : Took i.next [x] f) (closes : x.kind = .punct .closeBracket) (lt' : f.size < c.size)
    (more : suffixes (.index (e.span.through x.span) e i.value) f = .ok whole)
    (value : r.value = whole.value) (behind : r.next = whole.next)
  | arrow {t : Token} {d f : Cursor} {a : Expr} {whole : Peeked Expr f.size} (took : Took c [t] d)
    (kind : t.kind = .punct .arrow ∨ t.kind = .punct .nullsafeArrow) (lt : d.size < c.size)
    (access : Accessed e.span d a f) (lt' : f.size < c.size) (more : suffixes a f = .ok whole)
    (value : r.value = whole.value) (behind : r.next = whole.next)
  | member {t : Token} {d : Cursor} {m : Read Expr d.size} {whole : Peeked Expr m.next.size}
    (took : Took c [t] d) (kind : t.kind = .punct .doubleColon) (lt : d.size < c.size)
    (access : member e.span d = .ok m) (more : suffixes m.value m.next = .ok whole)
    (value : r.value = whole.value) (behind : r.next = whole.next)
  | call {t : Token} {d : Cursor} {args : Read (List Expr × Span) d.size}
    {whole : Peeked Expr args.next.size} (took : Took c [t] d) (opens : t.kind = .punct .openParen)
    (lt : d.size < c.size) (list : arguments d = .ok args)
    (more : suffixes (.opaqueExpr (e.span.through args.value.2)) args.next = .ok whole)
    (value : r.value = whole.value) (behind : r.next = whole.next)

/-- What follows an operand was read by one of the rules: an index, a member, a call, or nothing more. -/
theorem suffixed_of_suffixes {e : Expr} {r : Peeked Expr c.size} (h : suffixes e c = .ok r) :
    Suffixed e r := by
  rw [suffixes] at h
  cases read : c.advance with
  | error m =>
    rw [read] at h
    obtain rfl := Except.ok.inj h
    exact .stays (by simp [rest_of_advance read]) rfl rfl
  | ok t =>
    have took := took_of_advance read
    rw [read] at h
    dsimp only at h
    -- Both kinds of arrows are followed by the same.
    have arrow : t.value.kind = .punct .arrow ∨ t.value.kind = .punct .nullsafeArrow →
        (t.next.advance >>= fun m ↦
          if isMemberName m.value then do
            let stop ← callSuffix m.value.span m.next
            let whole ← suffixes (.opaqueExpr (e.span.through stop.value)) stop.next
            return (t.andThen ((m.andMaybe stop).andMaybe whole)).peeked
          else unsupported m.value .dynamicMemberAccess) = .ok r → Suffixed e r := by
      intro kind h
      obtain ⟨m, read', h⟩ := exists_of_bind h
      split at h
      · rename_i name
        obtain ⟨stop, call, h⟩ := exists_of_bind h
        obtain ⟨whole, more, h⟩ := exists_of_bind h
        obtain rfl := Except.ok.inj h
        exact .arrow took kind t.shorter (.mk (took_of_advance read') m.shorter name call rfl rfl)
          (Nat.lt_trans (Nat.lt_of_le_of_lt (Nat.le_of_lt_succ stop.shorter) m.shorter) t.shorter)
          more rfl rfl
      · cases h
    split at h <;> rename_i kind
    · split at h
      · cases h
      rename_i some
      obtain ⟨i, inner, h⟩ := exists_of_bind h
      obtain ⟨close, close', h⟩ := exists_of_bind h
      obtain ⟨whole, more, h⟩ := exists_of_bind h
      obtain rfl := Except.ok.inj h
      obtain ⟨x, took', closes, same⟩ := took_of_expect close'
      exact .index took kind t.shorter (Bool.not_eq_true _ ▸ some) inner took' closes
        (Nat.lt_trans close.shorter (Nat.lt_trans i.shorter t.shorter)) (same ▸ more) rfl rfl
    · exact arrow (.inl kind) h
    · exact arrow (.inr kind) h
    · obtain ⟨m, access, h⟩ := exists_of_bind h
      obtain ⟨whole, more, h⟩ := exists_of_bind h
      obtain rfl := Except.ok.inj h
      exact .member took kind t.shorter access more rfl rfl
    · obtain ⟨args, list, h⟩ := exists_of_bind h
      obtain ⟨whole, more, h⟩ := exists_of_bind h
      obtain rfl := Except.ok.inj h
      exact .call took kind t.shorter list more rfl rfl
    · cases h
    · cases h
    · obtain rfl := Except.ok.inj h
      refine .stays (took.forall_head ?_) rfl rfl
      unfold endsOperand
      split <;> simp_all

/-! ### Operators -/

/-- What follows an expression: nothing that belongs to it, or a conditional or an operator, and what
follows these. -/
inductive Operated (min : Nat) (lhs : Expr) {c : Cursor} (r : Peeked Expr c.size) : Prop
  | stays (question : ∀ t ∈ c.rest.head?, t.kind = .punct .question → ternaryBinding < min)
    (operator : ∀ t ∈ c.rest.head?, ∀ o, operator? t = some o → o.leftBinding < min)
    (value : r.value = lhs) (behind : r.next = c)
  | elvis {t u : Token} {d f : Cursor} {b : Read Expr f.size} {whole : Peeked Expr b.next.size}
    (took : Took c [t] d) (question : t.kind = .punct .question) (loose : min ≤ ternaryBinding)
    (took' : Took d [u] f) (colon : u.kind = .punct .colon) (lt : f.size < c.size)
    (right : expression (ternaryBinding + 1) f = .ok b)
    (more : operators min (.elvis (lhs.span.through b.value.span) lhs b.value) b.next = .ok whole)
    (value : r.value = whole.value) (behind : r.next = whole.next)
  | ternary {t u : Token} {d f : Cursor} {a : Read Expr d.size} {b : Read Expr f.size}
    {whole : Peeked Expr b.next.size} (took : Took c [t] d) (question : t.kind = .punct .question)
    (loose : min ≤ ternaryBinding) (lt : d.size < c.size) (some : d.atPunct .colon = false)
    (middle : expression 0 d = .ok a) (took' : Took a.next [u] f) (colon : u.kind = .punct .colon)
    (lt' : f.size < c.size) (right : expression (ternaryBinding + 1) f = .ok b)
    (more : operators min (.ternary (lhs.span.through b.value.span) lhs a.value b.value) b.next =
      .ok whole)
    (value : r.value = whole.value) (behind : r.next = whole.next)
  | binary {t : Token} {o : Operator} {d : Cursor} {b : Read Expr d.size}
    {whole : Peeked Expr b.next.size} (took : Took c [t] d) (sign : operator? t = some o)
    (tight : min ≤ o.leftBinding) (lt : d.size < c.size) (right : expression o.rightBinding d = .ok b)
    (more : operators min (.binary (lhs.span.through b.value.span) o.op lhs b.value) b.next = .ok whole)
    (value : r.value = whole.value) (behind : r.next = whole.next)

/-- What follows an expression was read by one of the rules: a conditional, a binary operator, or nothing
more that binds as tightly as asked for. -/
theorem operated_of_operators {min : Nat} {lhs : Expr} {r : Peeked Expr c.size}
    (h : operators min lhs c = .ok r) : Operated min lhs r := by
  rw [operators] at h
  split at h
  · rename_i question read
    obtain ⟨took, kind⟩ := took_of_punct read
    split at h
    · rename_i tight
      obtain rfl := Except.ok.inj h
      refine .stays (fun _ _ _ ↦ tight) (took.forall_head fun o found ↦ ?_) rfl rfl
      simp [operator?, kind, punctOperator?] at found
    rename_i loose
    split at h
    · rename_i colon read'
      obtain ⟨other, right, h⟩ := exists_of_bind h
      obtain ⟨whole, more, h⟩ := exists_of_bind h
      obtain rfl := Except.ok.inj h
      obtain ⟨took', kind'⟩ := took_of_punct read'
      exact .elvis took kind (Nat.le_of_not_lt loose) took' kind'
        (Nat.lt_trans colon.shorter question.shorter) right more rfl rfl
    · rename_i none
      obtain ⟨chosen, middle, h⟩ := exists_of_bind h
      obtain ⟨colon, read', h⟩ := exists_of_bind h
      obtain ⟨other, right, h⟩ := exists_of_bind h
      obtain ⟨whole, more, h⟩ := exists_of_bind h
      obtain rfl := Except.ok.inj h
      obtain ⟨u, took', kind', -⟩ := took_of_expect read'
      exact .ternary took kind (Nat.le_of_not_lt loose) question.shorter
        (Cursor.punct?_eq_none_iff.1 none) middle took' kind'
        (Nat.lt_trans colon.shorter (Nat.lt_trans chosen.shorter question.shorter)) right more rfl rfl
  · rename_i none
    split at h
    · rename_i noOperator
      obtain rfl := Except.ok.inj h
      have ahead := ne_of_atPunct (Cursor.punct?_eq_none_iff.1 none)
      exact .stays (fun t ht question ↦ absurd question (ahead t ht))
        (binary?_eq_none_iff.1 noOperator) rfl rfl
    · rename_i o read
      obtain ⟨rhs, right, h⟩ := exists_of_bind h
      obtain ⟨whole, more, h⟩ := exists_of_bind h
      obtain rfl := Except.ok.inj h
      obtain ⟨t, took, sign, tight⟩ := exists_of_binary read
      exact .binary took sign tight o.shorter right more rfl rfl

/-- An expression: an operand and the operators behind it. -/
theorem exists_of_expression {min : Nat} {r : Read Expr c.size} (h : expression min c = .ok r) :
    ∃ (operand : Read Expr c.size) (whole : Peeked Expr operand.next.size), unary c = .ok operand ∧
      operators min operand.value operand.next = .ok whole ∧ r.value = whole.value ∧
      r.next = whole.next := by
  rw [expression] at h
  obtain ⟨operand, first, h⟩ := exists_of_bind h
  obtain ⟨whole, more, h⟩ := exists_of_bind h
  obtain rfl := Except.ok.inj h
  exact ⟨operand, whole, first, more, rfl, rfl⟩

/-! ### Operands -/

/-- An expression that begins with the name `name`, which is the token `t`. -/
inductive Named (name : String) (t : Token) {c : Cursor} (r : Peeked Expr c.size) : Prop
  | literal (word : wordLiteral? (String.ofList (lower name.toList)) (c.atPunct .openParen) t.span =
      some r.value) (behind : r.next = c)
  | creation (new : String.ofList (lower name.toList) = "new")
    (access : Accessed t.span c r.value r.next)
  | array {o : Token} {d : Cursor} {list : Read (List Item × Span) d.size} (names : Names name t c)
    (word : String.ofList (lower name.toList) = "array") (took : Took c [o] d)
    (opens : o.kind = .punct .openParen) (lt : d.size < c.size)
    (elements : items .closeParen d = .ok list)
    (value : r.value = .array (t.span.through list.value.2) list.value.1) (behind : r.next = list.next)
  | call {o : Token} {d : Cursor} {args : Read (List Expr × Span) d.size} (names : Names name t c)
    (word : String.ofList (lower name.toList) ≠ "array") (took : Took c [o] d)
    (opens : o.kind = .punct .openParen) (lt : d.size < c.size) (list : arguments d = .ok args)
    (value : r.value = .call (t.span.through args.value.2) name args.value.1)
    (behind : r.next = args.next)
  | member {x : Token} {d : Cursor} {m : Read Expr d.size} (names : Names name t c)
    (took : Took c [x] d) (kind : x.kind = .punct .doubleColon) (lt : d.size < c.size)
    (access : member t.span d = .ok m) (value : r.value = m.value) (behind : r.next = m.next)
  | const (names : Names name t c) (call : c.atPunct .openParen = false)
    (owner : c.atPunct .doubleColon = false) (value : r.value = .const t.span name)
    (behind : r.next = c)

/-- What begins with a name was read by one of the rules: a literal, `new`, an array, a call, a member or
a constant. -/
theorem named_cases {name : String} {t : Token} {r : Peeked Expr c.size} (h : named name t c = .ok r) :
    Named name t r := by
  rw [named] at h
  dsimp only at h
  split at h
  · rename_i e word
    obtain rfl := Except.ok.inj h
    exact .literal word rfl
  rename_i literal
  split at h
  · rename_i new
    exact .creation (beq_iff_eq.1 new) (accessed_of_creation h)
  rename_i new
  split at h
  · cases h
  rename_i supported
  have names : Names name t c := ⟨literal, fun same ↦ new (beq_iff_eq.2 same),
    Bool.not_eq_true _ ▸ supported⟩
  split at h
  · rename_i paren read
    obtain ⟨took, opens⟩ := took_of_punct read
    split at h
    · rename_i array
      obtain ⟨list, elements, h⟩ := exists_of_bind h
      obtain rfl := Except.ok.inj h
      exact .array names (beq_iff_eq.1 array) took opens paren.shorter elements rfl rfl
    · rename_i array
      obtain ⟨args, list, h⟩ := exists_of_bind h
      obtain rfl := Except.ok.inj h
      exact .call names (fun same ↦ array (beq_iff_eq.2 same)) took opens paren.shorter list rfl rfl
  · rename_i noCall
    split at h
    · rename_i colons read
      obtain ⟨took, kind⟩ := took_of_punct read
      obtain ⟨m, access, h⟩ := exists_of_bind h
      obtain rfl := Except.ok.inj h
      exact .member names took kind colons.shorter access rfl rfl
    · rename_i noOwner
      obtain rfl := Except.ok.inj h
      exact .const names (Cursor.punct?_eq_none_iff.1 noCall) (Cursor.punct?_eq_none_iff.1 noOwner)
        rfl rfl

/-- An operand without anything before or behind it. -/
inductive Primary {c : Cursor} (r : Read Expr c.size) : Prop
  | literal {t : Token} (took : Took c [t] r.next) (atom : literal? t = some r.value)
  | group {o x : Token} {d : Cursor} {a : Read Expr d.size} (took : Took c [o] d)
    (opens : o.kind = .punct .openParen) (lt : d.size < c.size) (inner : expression 0 d = .ok a)
    (took' : Took a.next [x] r.next) (closes : x.kind = .punct .closeParen)
    (value : r.value = a.value.withSpan (o.span.through x.span))
  | array {o : Token} {d : Cursor} {list : Read (List Item × Span) d.size} (took : Took c [o] d)
    (opens : o.kind = .punct .openBracket) (lt : d.size < c.size)
    (elements : items .closeBracket d = .ok list)
    (value : r.value = .array (o.span.through list.value.2) list.value.1) (behind : r.next = list.next)
  | name {name : String} {t : Token} {d : Cursor} {whole : Peeked Expr d.size} (took : Took c [t] d)
    (kind : t.kind = .ident name) (lt : d.size < c.size) (rest : named name t d = .ok whole)
    (value : r.value = whole.value) (behind : r.next = whole.next)

/-- An operand was read by one of the rules: a literal, a name, a group in parentheses or an array. -/
theorem primary_cases {r : Read Expr c.size} (h : primary c = .ok r) : Primary r := by
  rw [primary] at h
  obtain ⟨t, read, h⟩ := exists_of_bind h
  have took := took_of_advance read
  dsimp only at h
  split at h
  · rename_i e atom
    obtain rfl := Except.ok.inj h
    exact .literal took atom
  · rename_i opens
    obtain ⟨a, inner, h⟩ := exists_of_bind h
    obtain ⟨close, close', h⟩ := exists_of_bind h
    obtain rfl := Except.ok.inj h
    obtain ⟨x, took', closes, same⟩ := took_of_expect close'
    exact .group took opens t.shorter inner took' closes (by rw [same]; rfl)
  · rename_i opens
    obtain ⟨list, elements, h⟩ := exists_of_bind h
    obtain rfl := Except.ok.inj h
    exact .array took opens t.shorter elements rfl rfl
  · rename_i name kind
    obtain ⟨whole, rest, h⟩ := exists_of_bind h
    obtain rfl := Except.ok.inj h
    exact .name took kind t.shorter rest rfl rfl
  · cases h

/-- An operand with what stands in front of it, or with what follows it. -/
inductive Unary {c : Cursor} (r : Read Expr c.size) : Prop
  | sign {t : Token} {op : UnaryOp} {d : Cursor} {a : Read Expr d.size} (took : Took c [t] d)
    (sign : prefixOperator? t = some op) (lt : d.size < c.size)
    (inner : expression prefixBinding d = .ok a)
    (value : r.value = .unary (t.span.through a.value.span) op a.value) (behind : r.next = a.next)
  | cast {o w x : Token} {kind : CastKind} {d : Cursor} {a : Read Expr d.size}
    (took : Took c [o, w, x] d) (opens : o.kind = .punct .openParen) (word : castKind? w = some kind)
    (closes : x.kind = .punct .closeParen) (lt : d.size < c.size)
    (inner : expression prefixBinding d = .ok a)
    (value : r.value = .cast (o.span.through a.value.span) kind a.value) (behind : r.next = a.next)
  | plain {t : Token} {base : Read Expr c.size} {whole : Peeked Expr base.next.size}
    (head : c.rest.head? = some t) (noSign : prefixOperator? t = none)
    (noMark : isReferenceMark t = false) (noCast : cast? c = none) (first : primary c = .ok base)
    (more : suffixes base.value base.next = .ok whole) (value : r.value = whole.value)
    (behind : r.next = whole.next)

/-- An operand with what is in front of it was read by one of the rules: a prefix operator, a cast, or
the operand alone with what follows it. -/
theorem unary_cases {r : Read Expr c.size} (h : unary c = .ok r) : Unary r := by
  rw [unary] at h
  obtain ⟨t, read, h⟩ := exists_of_bind h
  have took := took_of_advance read
  dsimp only at h
  split at h
  · rename_i op sign
    obtain ⟨a, inner, h⟩ := exists_of_bind h
    obtain rfl := Except.ok.inj h
    exact .sign took sign t.shorter inner rfl rfl
  rename_i noSign
  split at h
  · cases h
  rename_i noMark
  split at h
  · rename_i kind cast
    obtain ⟨a, inner, h⟩ := exists_of_bind h
    obtain rfl := Except.ok.inj h
    obtain ⟨o, w, x, tookCast, opens, word, closes⟩ := exists_of_cast cast
    obtain rfl : t.value = o := (List.cons.inj (took.rest.symm.trans tookCast.rest)).1
    exact .cast tookCast opens word closes kind.shorter inner rfl rfl
  · rename_i noCast
    obtain ⟨base, first, h⟩ := exists_of_bind h
    obtain ⟨whole, more, h⟩ := exists_of_bind h
    obtain rfl := Except.ok.inj h
    exact .plain (head?_of_took took) noSign (Bool.not_eq_true _ ▸ noMark) noCast first more rfl rfl

/-! ### Lists -/

/-- What is listed up to the token `p`: nothing, or what `first` reads, and behind a comma what `others`
reads. -/
inductive Listed {α : Type} (p : Punct) (first : (c : Cursor) → Parse (Read α c.size))
    (others : (c : Cursor) → Parse (Read (List α × Span) c.size)) {c : Cursor}
    (r : Read (List α × Span) c.size) : Prop
  | close {x : Token} (took : Took c [x] r.next) (closes : x.kind = .punct p)
    (value : r.value = ([], x.span))
  | last {x : Token} {a : Read α c.size}
    (begins : ∀ t ∈ c.rest.head?, t.kind ≠ .punct p ∧ t.kind ≠ .punct .ellipsis ∧
      t.kind ≠ .punct .ampersand) (inner : first c = .ok a) (took : Took a.next [x] r.next)
    (closes : x.kind = .punct p) (value : r.value = ([a.value], x.span))
  | more {x : Token} {a : Read α c.size} {d : Cursor} {more : Read (List α × Span) d.size}
    (begins : ∀ t ∈ c.rest.head?, t.kind ≠ .punct p ∧ t.kind ≠ .punct .ellipsis ∧
      t.kind ≠ .punct .ampersand) (inner : first c = .ok a) (took : Took a.next [x] d)
    (comma : x.kind = .punct .comma) (lt : d.size < c.size) (rest : others d = .ok more)
    (value : r.value = (a.value :: more.value.1, more.value.2)) (behind : r.next = more.next)

/-- A list goes on in front of a token that neither closes it nor begins something unsupported. -/
theorem begins_of_advance {p : Punct} {t : Read Token c.size} (none : c.punct? p = none)
    (read : c.advance = .ok t) (plain : ¬(t.value.isPunct .ellipsis || t.value.isPunct .ampersand) = true) :
    ∀ u ∈ c.rest.head?, u.kind ≠ .punct p ∧ u.kind ≠ .punct .ellipsis ∧ u.kind ≠ .punct .ampersand := by
  intro u hu
  have here := ne_of_atPunct (Cursor.punct?_eq_none_iff.1 none) u hu
  rw [head?_of_took (took_of_advance read)] at hu
  obtain rfl := Option.some.inj hu
  simpa [Token.isPunct, here] using plain

/-- Reading a list up to the token `p`. What begins with an ellipsis or an ampersand is not supported. -/
def list {α : Type} (p : Punct) (feature : Feature) (first : (c : Cursor) → Parse (Read α c.size))
    (others : (c : Cursor) → Parse (Read (List α × Span) c.size)) (c : Cursor) :
    Parse (Read (List α × Span) c.size) :=
  match c.punct? p with
  | some close => .ok (close.map fun t ↦ ([], t.span))
  | none => do
    let t ← c.advance
    if t.value.isPunct .ellipsis || t.value.isPunct .ampersand then unsupported t.value feature
    else
      let a ← first c
      match a.next.punct? .comma with
      | some comma =>
        let more ← others comma.next
        return a.andThen (comma.andThen (more.map fun (rest, stop) ↦ (a.value :: rest, stop)))
      | none =>
        match a.next.punct? p with
        | some close => return a.andThen (close.map fun t ↦ ([a.value], t.span))
        | none => a.next.unexpected

/-- Arguments are a list of expressions. -/
theorem arguments_eq (c : Cursor) :
    arguments c = list .closeParen .argumentUnpacking (expression 0) arguments c := by
  rw [arguments, list]
  cases c.punct? .closeParen with
  | some _ => rfl
  | none =>
    refine bind_congr fun t ↦ ite_congr rfl (fun _ ↦ rfl) fun _ ↦ bind_congr fun a ↦ ?_
    cases a.next.punct? .comma with
    | some _ => rfl
    | none => cases a.next.punct? .closeParen <;> rfl

/-- The elements of an array are a list of items. -/
theorem items_eq (p : Punct) (c : Cursor) : items p c = list p .arrayUnpacking item (items p) c := by
  rw [items, list]
  cases c.punct? p with
  | some _ => rfl
  | none =>
    refine bind_congr fun t ↦ ite_congr rfl (fun _ ↦ rfl) fun _ ↦ bind_congr fun a ↦ ?_
    cases a.next.punct? .comma with
    | some _ => rfl
    | none => cases a.next.punct? p <;> rfl

/-- A list was read by one of the rules: its end, its last element, or an element in front of a comma and
others. -/
theorem listed_of_list {α : Type} {p : Punct} {feature : Feature}
    {first : (c : Cursor) → Parse (Read α c.size)}
    {others : (c : Cursor) → Parse (Read (List α × Span) c.size)} {r : Read (List α × Span) c.size}
    (h : list p feature first others c = .ok r) : Listed p first others r := by
  unfold list at h
  split at h
  · rename_i close read
    obtain rfl := Except.ok.inj h
    obtain ⟨took, closes⟩ := took_of_punct read
    exact .close took closes rfl
  rename_i none
  obtain ⟨t, read, h⟩ := exists_of_bind h
  split at h
  · cases h
  rename_i plain
  have begins := begins_of_advance none read plain
  obtain ⟨a, inner, h⟩ := exists_of_bind h
  split at h
  · rename_i comma read'
    obtain ⟨more, rest, h⟩ := exists_of_bind h
    obtain rfl := Except.ok.inj h
    obtain ⟨took, kind⟩ := took_of_punct read'
    exact .more begins inner took kind (Nat.lt_trans comma.shorter a.shorter) rest rfl rfl
  split at h
  · rename_i close read'
    obtain rfl := Except.ok.inj h
    obtain ⟨took, closes⟩ := took_of_punct read'
    exact .last begins inner took closes rfl
  · unfold Cursor.unexpected at h
    split at h <;> cases h

theorem listed_of_arguments {r : Read (List Expr × Span) c.size} (h : arguments c = .ok r) :
    Listed .closeParen (expression 0) arguments r :=
  listed_of_list ((arguments_eq c).symm.trans h)

theorem listed_of_items {p : Punct} {r : Read (List Item × Span) c.size} (h : items p c = .ok r) :
    Listed p item (items p) r :=
  listed_of_list ((items_eq p c).symm.trans h)

/-- An element of an array: a value, or a key and a value. -/
inductive Element {c : Cursor} (r : Read Item c.size) : Prop
  | value {a : Read Expr c.size} (inner : expression 0 c = .ok a)
    (arrow : a.next.atPunct .doubleArrow = false) (value : r.value = .value a.value)
    (behind : r.next = a.next)
  | keyed {x : Token} {a : Read Expr c.size} {d : Cursor} {b : Read Expr d.size}
    (inner : expression 0 c = .ok a) (took : Took a.next [x] d) (arrow : x.kind = .punct .doubleArrow)
    (lt : d.size < c.size) (right : expression 0 d = .ok b) (value : r.value = .keyed a.value b.value)
    (behind : r.next = b.next)

/-- An element of an array was read as a value, or as a key and a value. -/
theorem element_of_item {r : Read Item c.size} (h : item c = .ok r) : Element r := by
  rw [item] at h
  obtain ⟨first, inner, h⟩ := exists_of_bind h
  dsimp only at h
  split at h
  · rename_i arrow read
    obtain ⟨value, right, h⟩ := exists_of_bind h
    obtain rfl := Except.ok.inj h
    obtain ⟨took, kind⟩ := took_of_punct read
    exact .keyed inner took kind (Nat.lt_trans arrow.shorter first.shorter) right rfl rfl
  · rename_i none
    obtain rfl := Except.ok.inj h
    exact .value inner (Cursor.punct?_eq_none_iff.1 none) rfl rfl

end ConfigScript.Script
