import ConfigScript.Proofs.Parsing.Reading

/-!
# How expressions are spelled

What the parser of expressions accepts is spelled by the tokens it has read: `Spells rest pre form` says
that the tokens `pre`, with `rest` behind them, spell an expression, a list of arguments or the elements
of an array. The rules follow the grammar without its precedences. Facts about what was read are then
proved by induction on the spelling: brackets close (`Spells.enclosed`), and an expression ends as an
operand does (`Spells.endsAtom`).

Of an argument, the spelling also keeps that the parser reads it at this place.
-/

namespace ConfigScript.Script

/-! ### Tokens of expressions -/

/-- Whether the token is neither a bracket nor one that no expression holds. -/
def isPlain (t : Token) : Bool :=
  match t.kind with
  | .punct .openParen | .punct .closeParen | .punct .openBracket | .punct .closeBracket
  | .punct .openBrace | .punct .closeBrace | .punct .semicolon | .punct .assign | .openTag
  | .closeTag | .inlineHtml => false
  | _ => true

/-- Whether the token opens a bracket within an expression. -/
def opensGroup (t : Token) : Bool := t.isPunct .openParen || t.isPunct .openBracket

/-- Whether the token closes a bracket within an expression. -/
def closesGroup (t : Token) : Bool := t.isPunct .closeParen || t.isPunct .closeBracket

/-- Tokens of an expression whose brackets are closed. -/
inductive Enclosed : List Token → Prop
  | nil : Enclosed []
  | plain {t : Token} {ts : List Token} (h : isPlain t) (more : Enclosed ts) : Enclosed (t :: ts)
  | nest {o c : Token} {ts us : List Token} (opens : opensGroup o) (closes : closesGroup c)
      (inside : Enclosed ts) (more : Enclosed us) : Enclosed (o :: (ts ++ c :: us))

namespace Enclosed

variable {ts us : List Token}

/-- Enclosed tokens behind enclosed ones are enclosed. -/
theorem append (h : Enclosed ts) (h' : Enclosed us) : Enclosed (ts ++ us) := by
  induction h with
  | nil => exact h'
  | plain plain _ ih => exact .plain plain ih
  | @nest o c ts _ opens closes inside _ _ ih =>
    rw [List.cons_append, List.append_assoc, List.cons_append]
    exact .nest opens closes inside ih

theorem singleton {t : Token} (h : isPlain t) : Enclosed [t] := .plain h .nil

/-- What tokens an expression has. -/
theorem kinds (h : Enclosed ts) {t : Token} (mem : t ∈ ts) :
    isPlain t ∨ opensGroup t ∨ closesGroup t := by
  induction h with
  | nil => cases mem
  | plain h _ ih =>
    rcases List.mem_cons.1 mem with rfl | mem
    · exact .inl h
    · exact ih mem
  | nest opens closes _ _ ih ih' =>
    rcases List.mem_cons.1 mem with rfl | mem
    · exact .inr (.inl opens)
    rcases List.mem_append.1 mem with mem | mem
    · exact ih mem
    rcases List.mem_cons.1 mem with rfl | mem
    · exact .inr (.inr closes)
    · exact ih' mem

/-- An expression holds no token that ends a statement or assigns. -/
theorem isPlain_of (h : Enclosed ts) {t : Token} (mem : t ∈ ts)
    (bracket : ∀ p, t.kind = .punct p → p ∉ [Punct.openParen, .openBracket, .closeParen,
      .closeBracket]) : isPlain t := by
  rcases h.kinds mem with plain | group | group
  · exact plain
  · rw [opensGroup, Token.isPunct, Token.isPunct, Bool.or_eq_true, beq_iff_eq, beq_iff_eq] at group
    rcases group with hk | hk <;> exact absurd (bracket _ hk) (by decide)
  · rw [closesGroup, Token.isPunct, Token.isPunct, Bool.or_eq_true, beq_iff_eq, beq_iff_eq] at group
    rcases group with hk | hk <;> exact absurd (bracket _ hk) (by decide)

/-- Enclosed tokens in parentheses or square brackets are enclosed. -/
theorem group {o c : Token} (opens : o.kind = .punct .openParen ∨ o.kind = .punct .openBracket)
    (closes : c.kind = .punct .closeParen ∨ c.kind = .punct .closeBracket) (inside : Enclosed ts) :
    Enclosed (o :: (ts ++ [c])) := by
  refine .nest ?_ ?_ inside .nil
  · rcases opens with h | h <;> simp [opensGroup, Token.isPunct, h]
  · rcases closes with h | h <;> simp [closesGroup, Token.isPunct, h]

end Enclosed

/-- Whether an operand may end with the token. -/
def endsAtom (t : Token) : Bool :=
  match t.kind with
  | .punct .closeParen | .punct .closeBracket => true
  | .punct _ | .openTag | .closeTag | .inlineHtml => false
  | _ => true

/-- Tokens with which an operand ends, and whose brackets are closed. -/
structure Tail (ts : List Token) : Prop where
  enclosed : Enclosed ts
  last : ∃ us t, ts = us ++ [t] ∧ endsAtom t

namespace Tail

variable {ts us : List Token}

theorem some (h : Tail ts) : ts ≠ [] := by
  obtain ⟨-, us, t, rfl, -⟩ := h
  simp

theorem singleton {t : Token} (plain : isPlain t) (ends : endsAtom t) : Tail [t] :=
  ⟨.singleton plain, [], t, rfl, ends⟩

/-- Enclosed tokens in front of a tail are one with it. -/
theorem append (front : Enclosed ts) (h : Tail us) : Tail (ts ++ us) where
  enclosed := front.append h.enclosed
  last := by
    obtain ⟨-, vs, t, rfl, ends⟩ := h
    exact ⟨ts ++ vs, t, by simp, ends⟩

theorem cons {t : Token} (plain : isPlain t) (h : Tail us) : Tail (t :: us) :=
  h.append (.singleton plain)

end Tail

/-! ### Spellings -/

/-- Whether the expression has no others inside. -/
def isAtom : Expr → Bool
  | .null _ | .bool _ _ | .int _ _ | .float _ _ | .str _ _ | .const _ _ | .magic _ _ | .var _ _ => true
  | _ => false

/-- What tokens may spell: an expression, the arguments of a call or the elements of an array, each with
the closing bracket and its span, or one such element. -/
inductive Form where
  | expr (e : Expr)
  | args (es : List Expr) (stop : Span)
  | items (is : List Item) (stop : Span)
  | item (i : Item)

/-- Wherever the parser comes from, it reads the expression `e` from the tokens `pre`. -/
def Asked (pre rest : List Token) (e : Expr) : Prop :=
  ∀ s, Yields (expression 0 ⟨s, pre ++ rest⟩) e ⟨lastSpan s pre, rest⟩

/-- The tokens in front of `rest` spell something. -/
inductive Spells : List Token → List Token → Form → Prop
  | atom {rest : List Token} {t : Token} {e : Expr} (plain : isPlain t) (ends : endsAtom t)
      (atom : isAtom e) (span : e.span = t.span) (text : e.literalText?.isSome → endsText t) :
      Spells rest [t] (.expr e)
  | paren {rest pre : List Token} {o c : Token} {e : Expr} (ho : o.kind = .punct .openParen)
      (hc : c.kind = .punct .closeParen) (inner : Spells (c :: rest) pre (.expr e)) :
      Spells rest (o :: (pre ++ [c])) (.expr (e.withSpan (o.span.through c.span)))
  | bracketed {rest pre : List Token} {o : Token} {is : List Item} {stop : Span}
      (ho : o.kind = .punct .openBracket) (inner : Spells rest pre (.items is stop)) :
      Spells rest (o :: pre) (.expr (.array (o.span.through stop) is))
  | array {rest pre : List Token} {t o : Token} {is : List Item} {stop : Span} (plain : isPlain t)
      (ho : o.kind = .punct .openParen) (inner : Spells rest pre (.items is stop)) :
      Spells rest (t :: o :: pre) (.expr (.array (t.span.through stop) is))
  | call {rest pre : List Token} {t o : Token} {name : String} {es : List Expr} {stop : Span}
      (plain : isPlain t) (ho : o.kind = .punct .openParen)
      (inner : Spells rest pre (.args es stop)) :
      Spells rest (t :: o :: pre) (.expr (.call (t.span.through stop) name es))
  | opaqueName {rest more : List Token} {t : Token} (plain : isPlain t) (tail : Tail more) :
      Spells rest (t :: more) (.expr (.opaqueExpr (t.span.through (lastSpan t.span more))))
  | opaqueSuffix {rest pre more : List Token} {e : Expr} (base : Spells (more ++ rest) pre (.expr e))
      (tail : Tail more) :
      Spells rest (pre ++ more) (.expr (.opaqueExpr (e.span.through (lastSpan e.span more))))
  | index {rest pre inner : List Token} {o c : Token} {e i : Expr}
      (ho : o.kind = .punct .openBracket) (hc : c.kind = .punct .closeBracket)
      (base : Spells (o :: (inner ++ c :: rest)) pre (.expr e))
      (index : Spells (c :: rest) inner (.expr i)) :
      Spells rest (pre ++ o :: (inner ++ [c])) (.expr (.index (e.span.through c.span) e i))
  | unary {rest pre : List Token} {t : Token} {op : UnaryOp} {e : Expr} (plain : isPlain t)
      (operand : Spells rest pre (.expr e)) :
      Spells rest (t :: pre) (.expr (.unary (t.span.through e.span) op e))
  | cast {rest pre : List Token} {o t c : Token} {kind : CastKind} {e : Expr}
      (ho : o.kind = .punct .openParen) (plain : isPlain t) (hc : c.kind = .punct .closeParen)
      (operand : Spells rest pre (.expr e)) :
      Spells rest (o :: t :: c :: pre) (.expr (.cast (o.span.through e.span) kind e))
  | binary {rest pre pre' : List Token} {t : Token} {op : BinaryOp} {a b : Expr} (plain : isPlain t)
      (lhs : Spells (t :: (pre' ++ rest)) pre (.expr a)) (rhs : Spells rest pre' (.expr b)) :
      Spells rest (pre ++ t :: pre') (.expr (.binary (a.span.through b.span) op a b))
  | ternary {rest pre pre' pre'' : List Token} {t u : Token} {a b d : Expr} (plain : isPlain t)
      (plain' : isPlain u) (condition : Spells (t :: (pre' ++ u :: (pre'' ++ rest))) pre (.expr a))
      (chosen : Spells (u :: (pre'' ++ rest)) pre' (.expr b)) (other : Spells rest pre'' (.expr d)) :
      Spells rest (pre ++ t :: (pre' ++ u :: pre'')) (.expr (.ternary (a.span.through d.span) a b d))
  | elvis {rest pre pre' : List Token} {t u : Token} {a b : Expr} (plain : isPlain t)
      (plain' : isPlain u) (condition : Spells (t :: u :: (pre' ++ rest)) pre (.expr a))
      (other : Spells rest pre' (.expr b)) :
      Spells rest (pre ++ t :: u :: pre') (.expr (.elvis (a.span.through b.span) a b))
  | noArgs {rest : List Token} {c : Token} (hc : c.kind = .punct .closeParen) :
      Spells rest [c] (.args [] c.span)
  | lastArg {rest pre : List Token} {c : Token} {e : Expr} (hc : c.kind = .punct .closeParen)
      (first : Spells (c :: rest) pre (.expr e)) (asked : Asked pre (c :: rest) e) :
      Spells rest (pre ++ [c]) (.args [e] c.span)
  | moreArgs {rest pre more : List Token} {c : Token} {e : Expr} {es : List Expr} {stop : Span}
      (hc : c.kind = .punct .comma) (first : Spells (c :: (more ++ rest)) pre (.expr e))
      (asked : Asked pre (c :: (more ++ rest)) e) (others : Spells rest more (.args es stop)) :
      Spells rest (pre ++ c :: more) (.args (e :: es) stop)
  | noItems {rest : List Token} {c : Token}
      (hc : c.kind = .punct .closeParen ∨ c.kind = .punct .closeBracket) :
      Spells rest [c] (.items [] c.span)
  | lastItem {rest pre : List Token} {c : Token} {i : Item}
      (hc : c.kind = .punct .closeParen ∨ c.kind = .punct .closeBracket)
      (first : Spells (c :: rest) pre (.item i)) : Spells rest (pre ++ [c]) (.items [i] c.span)
  | moreItems {rest pre more : List Token} {c : Token} {i : Item} {is : List Item} {stop : Span}
      (hc : c.kind = .punct .comma) (first : Spells (c :: (more ++ rest)) pre (.item i))
      (others : Spells rest more (.items is stop)) :
      Spells rest (pre ++ c :: more) (.items (i :: is) stop)
  | value {rest pre : List Token} {e : Expr} (value : Spells rest pre (.expr e)) :
      Spells rest pre (.item (.value e))
  | keyed {rest pre pre' : List Token} {t : Token} {a b : Expr} (plain : isPlain t)
      (key : Spells (t :: (pre' ++ rest)) pre (.expr a)) (value : Spells rest pre' (.expr b)) :
      Spells rest (pre ++ t :: pre') (.item (.keyed a b))

/-! ### Brackets -/

/-- Tokens that end with a closing bracket, of which `stop` is the span, and are closed up to it. -/
def ClosesWith (stop : Span) (ts : List Token) : Prop :=
  ∃ us c, ts = us ++ [c] ∧ Enclosed us ∧ closesGroup c ∧ c.span = stop

/-- The last token is the bracket that closes. -/
theorem ClosesWith.lastSpan {stop : Span} {ts : List Token} (h : ClosesWith stop ts) (s : Span) :
    lastSpan s ts = stop := by
  obtain ⟨us, c, rfl, -, -, rfl⟩ := h
  simp

/-- An opening bracket and tokens that close with one are enclosed. -/
theorem ClosesWith.group {stop : Span} {ts : List Token} {o : Token} (h : ClosesWith stop ts)
    (opens : o.kind = .punct .openParen ∨ o.kind = .punct .openBracket) : Enclosed (o :: ts) := by
  obtain ⟨us, c, rfl, inside, closes, -⟩ := h
  refine .nest ?_ closes inside .nil
  rcases opens with h | h <;> simp [opensGroup, Token.isPunct, h]

/-- Enclosed tokens and a plain one in front of tokens that close with a bracket do so too. -/
theorem ClosesWith.cons {stop : Span} {ts us : List Token} (h : ClosesWith stop us)
    (front : Enclosed ts) {t : Token} (plain : isPlain t) : ClosesWith stop (ts ++ t :: us) := by
  obtain ⟨vs, c, rfl, inside, closes, same⟩ := h
  exact ⟨ts ++ t :: vs, c, by simp, front.append (.plain plain inside), closes, same⟩

theorem isPlain_of_comma {t : Token} (h : t.kind = .punct .comma) : isPlain t := by
  simp [isPlain, h]

theorem closesGroup_of_kind {c : Token}
    (h : c.kind = .punct .closeParen ∨ c.kind = .punct .closeBracket) : closesGroup c := by
  rcases h with h | h <;> simp [closesGroup, Token.isPunct, h]

/-- What the tokens of each form are. -/
def Form.Fits (ts : List Token) : Form → Prop
  | .expr _ | .item _ => Enclosed ts
  | .args _ stop | .items _ stop => ClosesWith stop ts

/-- What is spelled fits its tokens: those of an expression or an element are enclosed, those of arguments
and elements close with their bracket. -/
theorem Spells.fits {rest pre : List Token} {form : Form} (h : Spells rest pre form) :
    form.Fits pre := by
  induction h with
  | atom plain => exact .singleton plain
  | paren ho hc _ ih => exact .group (.inl ho) (.inl hc) ih
  | bracketed ho _ ih => exact ih.group (.inr ho)
  | array plain ho _ ih => exact .plain plain (ih.group (.inl ho))
  | call plain ho _ ih => exact .plain plain (ih.group (.inl ho))
  | opaqueName plain tail => exact .plain plain tail.enclosed
  | opaqueSuffix _ tail ih => exact ih.append tail.enclosed
  | index ho hc _ _ ih ih' => exact ih.append (.group (.inr ho) (.inr hc) ih')
  | unary plain _ ih => exact .plain plain ih
  | cast ho plain hc _ ih => exact (Enclosed.group (.inl ho) (.inl hc) (.singleton plain)).append ih
  | binary plain _ _ ih ih' => exact ih.append (.plain plain ih')
  | ternary plain plain' _ _ _ ih ih' ih'' =>
    exact ih.append (.plain plain (ih'.append (.plain plain' ih'')))
  | elvis plain plain' _ _ ih ih' => exact ih.append (.plain plain (.plain plain' ih'))
  | noArgs hc => exact ⟨[], _, rfl, .nil, closesGroup_of_kind (.inl hc), rfl⟩
  | lastArg hc _ _ ih => exact ⟨_, _, rfl, ih, closesGroup_of_kind (.inl hc), rfl⟩
  | moreArgs hc _ _ _ ih ih' => exact ih'.cons ih (isPlain_of_comma hc)
  | noItems hc => exact ⟨[], _, rfl, .nil, closesGroup_of_kind hc, rfl⟩
  | lastItem hc _ ih => exact ⟨_, _, rfl, ih, closesGroup_of_kind hc, rfl⟩
  | moreItems hc _ _ ih ih' => exact ih'.cons ih (isPlain_of_comma hc)
  | value _ ih => exact ih
  | keyed plain _ _ ih ih' => exact ih.append (.plain plain ih')

/-- The brackets of an expression are closed. -/
theorem Spells.enclosed {rest pre : List Token} {e : Expr} (h : Spells rest pre (.expr e)) :
    Enclosed pre := h.fits

theorem endsAtom_of_closesGroup {t : Token} (h : closesGroup t) : endsAtom t := by
  rw [closesGroup, Bool.or_eq_true, Token.isPunct, Token.isPunct, beq_iff_eq, beq_iff_eq] at h
  rcases h with h | h <;> simp [endsAtom, h]

/-- What is spelled has tokens. -/
theorem Spells.some {rest pre : List Token} {form : Form} (h : Spells rest pre form) : pre ≠ [] := by
  induction h with
  | opaqueSuffix _ tail _ => simp [tail.some]
  | _ => simp_all

/-- Where an expression ends. -/
theorem Spells.endsAtom {rest pre : List Token} {e : Expr} (h : Spells rest pre (.expr e)) :
    ∃ us t, pre = us ++ [t] ∧ Script.endsAtom t := by
  have closed : ∀ {stop : Span} {ts : List Token}, ClosesWith stop ts →
      ∃ us t, ts = us ++ [t] ∧ Script.endsAtom t := by
    rintro stop ts ⟨us, c, rfl, -, closes, -⟩
    exact ⟨us, c, rfl, endsAtom_of_closesGroup closes⟩
  have behind : ∀ (as : List Token) {bs : List Token}, (∃ us t, bs = us ++ [t] ∧ Script.endsAtom t) →
      ∃ us t, as ++ bs = us ++ [t] ∧ Script.endsAtom t := by
    rintro as bs ⟨us, t, rfl, ends⟩
    exact ⟨as ++ us, t, by simp, ends⟩
  have ofClose : ∀ {c : Token}, c.kind = .punct .closeParen ∨ c.kind = .punct .closeBracket →
      Script.endsAtom c := fun hc ↦ endsAtom_of_closesGroup (closesGroup_of_kind hc)
  generalize hform : Form.expr e = form at h
  induction h generalizing e with
  | atom _ ends => exact ⟨[], _, rfl, ends⟩
  | paren ho hc inner => exact ⟨_ :: _, _, rfl, ofClose (.inl hc)⟩
  | bracketed ho inner => exact behind [_] (closed inner.fits)
  | array _ ho inner => exact behind [_, _] (closed inner.fits)
  | call _ ho inner => exact behind [_, _] (closed inner.fits)
  | opaqueName _ tail => exact behind [_] tail.last
  | opaqueSuffix _ tail => exact behind _ tail.last
  | index _ hc => exact behind _ (behind [_] (behind _ ⟨[], _, rfl, ofClose (.inr hc)⟩))
  | unary _ _ ih => exact behind [_] (ih rfl)
  | cast _ _ _ _ ih => exact behind [_, _, _] (ih rfl)
  | binary _ _ _ _ ih => exact behind _ (behind [_] (ih rfl))
  | ternary _ _ _ _ _ _ _ ih =>
    exact behind _ (behind [_] (behind _ (behind [_] (ih rfl))))
  | elvis _ _ _ _ _ ih => exact behind _ (behind [_, _] (ih rfl))
  | _ => cases hform

/-! ### What the parser accepts is spelled -/

/-- An operator is plain. -/
theorem isPlain_of_operator {t : Token} {o : Operator} (h : operator? t = some o) : isPlain t := by
  unfold operator? at h
  split at h
  · rename_i p hp
    unfold punctOperator? at h
    split at h <;> simp_all [isPlain]
  · unfold Token.keyword? at h
    split at h
    · rename_i hk
      simp [isPlain, hk]
    · cases h

theorem isPlain_of_castKind {w : Token} {k : CastKind} (h : castKind? w = some k) : isPlain w := by
  unfold castKind? Token.keyword? at h
  cases hw : w.kind <;> simp_all [isPlain]

/-- Something was read from `c` to `next`, and its tokens spell it. -/
def Spelled (c next : Cursor) (form : Form) : Prop :=
  ∃ pre, Took c pre next ∧ Spells next.rest pre form

/-- More was read from `c` to `next`, and with the tokens in front of it that spells something. -/
def SpelledFrom (front : List Token) (c next : Cursor) (e : Expr) : Prop :=
  ∃ pre, Took c pre next ∧ Spells next.rest (front ++ pre) (.expr e)

/-- With fewer than `n` tokens ahead, what the parser of expressions accepts is spelled. -/
structure Speller (n : Nat) : Prop where
  expression : ∀ {c : Cursor} {min : Nat} {r : Read Expr c.size}, c.size < n →
    expression min c = .ok r → Spelled c r.next (.expr r.value)
  operators : ∀ {c : Cursor} {min : Nat} {front : List Token} {e : Expr} {r : Peeked Expr c.size},
    c.size < n → Spells c.rest front (.expr e) → operators min e c = .ok r →
      SpelledFrom front c r.next r.value
  suffixes : ∀ {c : Cursor} {front : List Token} {e : Expr} {r : Peeked Expr c.size}, c.size < n →
    Spells c.rest front (.expr e) → suffixes e c = .ok r → SpelledFrom front c r.next r.value
  arguments : ∀ {c : Cursor} {r : Read (List Expr × Span) c.size}, c.size < n →
    arguments c = .ok r → Spelled c r.next (.args r.value.1 r.value.2)
  items : ∀ {c : Cursor} {p : Punct} {r : Read (List Item × Span) c.size}, c.size < n →
    p = .closeParen ∨ p = .closeBracket → items p c = .ok r →
      Spelled c r.next (.items r.value.1 r.value.2)

variable {c : Cursor}

/-- What is spelled below a bound is spelled below each smaller one. -/
theorem Speller.mono {m n : Nat} (h : Speller n) (le : m ≤ n) : Speller m where
  expression lt := h.expression (Nat.lt_of_lt_of_le lt le)
  operators lt := h.operators (Nat.lt_of_lt_of_le lt le)
  suffixes lt := h.suffixes (Nat.lt_of_lt_of_le lt le)
  arguments lt := h.arguments (Nat.lt_of_lt_of_le lt le)
  items lt := h.items (Nat.lt_of_lt_of_le lt le)

/-- A tail may begin with the bracket whose closing ends it. -/
theorem ClosesWith.tail {stop : Span} {ts : List Token} {o : Token} (h : ClosesWith stop ts)
    (opens : o.kind = .punct .openParen ∨ o.kind = .punct .openBracket) : Tail (o :: ts) := by
  refine ⟨h.group opens, ?_⟩
  obtain ⟨us, c, rfl, -, closes, -⟩ := h
  exact ⟨o :: us, c, rfl, endsAtom_of_closesGroup closes⟩

/-- A call behind a name is a tail, or there is none. -/
theorem tail_callSuffix (ih : Speller c.size) {last : Span} {r : Peeked Span c.size}
    (h : callSuffix last c = .ok r) :
    ∃ pre, Took c pre r.next ∧ (pre = [] ∨ Tail pre) ∧ r.value = lastSpan last pre := by
  cases called_of_callSuffix h with
  | call took opens lt list value behind =>
    rw [value, behind]
    obtain ⟨pre, took', spells⟩ := ih.arguments lt list
    exact ⟨_, took.cons took', .inr (spells.fits.tail (.inl opens)), (spells.fits.lastSpan _).symm⟩
  | nothing _ value behind =>
    rw [value, behind]
    exact ⟨[], .refl c, .inl rfl, rfl⟩

/-- A name of a member is plain. -/
theorem isPlain_of_isMemberName {t : Token} (h : isMemberName t) : isPlain t := by
  unfold isMemberName at h
  split at h
  · rename_i hk
    simp [isPlain, hk]
  · rename_i hk
    simp [isPlain, hk]
  · cases h

theorem endsAtom_of_isMemberName {t : Token} (h : isMemberName t) : endsAtom t := by
  unfold isMemberName at h
  split at h <;> simp_all [endsAtom]

/-- The name of a member and what it is called with. -/
theorem Accessed.tail {n : Nat} (ih : Speller n) {start : Span} {a : Expr} {next : Cursor}
    (lt : c.size ≤ n) (h : Accessed start c a next) :
    ∃ pre, Took c pre next ∧ Tail pre ∧ ∀ s, a = .opaqueExpr (start.through (lastSpan s pre)) := by
  cases h with
  | mk took shorter name call value behind =>
    rw [value, behind]
    have below := ih.mono (Nat.le_of_lt (Nat.lt_of_lt_of_le shorter lt))
    obtain ⟨pre, took', tail, stop⟩ := tail_callSuffix below call
    rw [stop]
    have plain := isPlain_of_isMemberName name
    refine ⟨_, took.cons took', ?_, fun _ ↦ rfl⟩
    rcases tail with rfl | tail
    · exact .singleton plain (endsAtom_of_isMemberName name)
    · exact tail.cons plain

/-- Behind a suffix of which only the span is kept, it goes on. -/
theorem SpelledFrom.skipped {front more : List Token} {e a : Expr} {d next : Cursor} {stop : Span}
    (took : Took c more d) (base : Spells c.rest front (.expr e)) (tail : Tail more)
    (last : stop = lastSpan e.span more)
    (rest : Spells d.rest (front ++ more) (.expr (.opaqueExpr (e.span.through stop))) →
      SpelledFrom (front ++ more) d next a) : SpelledFrom front c next a := by
  rw [took.rest] at base
  rw [last] at rest
  obtain ⟨pre, took', spells⟩ := rest (.opaqueSuffix base tail)
  exact ⟨_, took.trans took', by rwa [← List.append_assoc]⟩

theorem SpelledFrom.refl {front : List Token} {e : Expr} (base : Spells c.rest front (.expr e)) :
    SpelledFrom front c c e :=
  ⟨[], .refl c, by rwa [List.append_nil]⟩

/-- What follows an operand is spelled with it, one suffix after the other. -/
theorem spelled_suffixes (ih : Speller c.size) {front : List Token} {e : Expr}
    {r : Peeked Expr c.size} (base : Spells c.rest front (.expr e)) (h : suffixes e c = .ok r) :
    SpelledFrom front c r.next r.value := by
  cases suffixed_of_suffixes h with
  | stays _ value behind =>
    rw [value, behind]
    exact .refl base
  | index took opens lt _ inner took' closes lt' more value behind =>
    rw [value, behind]
    obtain ⟨pre, tookIndex, spells⟩ := ih.expression lt inner
    have tookAll := took.cons (tookIndex.trans took')
    rw [tookAll.rest, List.cons_append, List.append_assoc, List.singleton_append] at base
    rw [took'.rest] at spells
    obtain ⟨pre', tookMore, spells'⟩ := ih.suffixes lt' (.index opens closes base spells) more
    exact ⟨_, tookAll.trans tookMore, by simpa using spells'⟩
  | @arrow t _ _ _ _ took kind lt access lt' more value behind =>
    rw [value, behind]
    have plain : isPlain t := by rcases kind with kind | kind <;> simp [isPlain, kind]
    obtain ⟨pre, took', tail, same⟩ := access.tail ih (Nat.le_of_lt lt)
    rw [same t.span] at more
    exact .skipped (took.cons took') base (tail.cons plain) rfl fun base ↦ ih.suffixes lt' base more
  | @member t _ m _ took kind lt access more value behind =>
    rw [value, behind]
    obtain ⟨pre, took', tail, same⟩ := (accessed_of_member access).tail ih (Nat.le_of_lt lt)
    rw [same t.span] at more
    exact .skipped (took.cons took') base (tail.cons (by simp [isPlain, kind])) rfl
      fun base ↦ ih.suffixes (Nat.lt_trans m.shorter lt) base more
  | @call _ _ args _ took opens lt list more value behind =>
    rw [value, behind]
    obtain ⟨pre, took', spells⟩ := ih.arguments lt list
    exact .skipped (took.cons took') base (spells.fits.tail (.inl opens)) (spells.fits.lastSpan _).symm
      fun base ↦ ih.suffixes (Nat.lt_trans args.shorter lt) base more

/-- The operators behind an operand are spelled with it; the rules of spelling do not ask how they bind.
-/
theorem spelled_operators (ih : Speller c.size) {min : Nat} {front : List Token} {e : Expr}
    {r : Peeked Expr c.size} (base : Spells c.rest front (.expr e))
    (h : operators min e c = .ok r) : SpelledFrom front c r.next r.value := by
  cases operated_of_operators h with
  | stays _ _ value behind =>
    rw [value, behind]
    exact .refl base
  | @elvis _ _ _ _ b _ took question _ took' colon lt right more value behind =>
    rw [value, behind]
    obtain ⟨pre, tookRight, spells⟩ := ih.expression lt right
    have tookAll := took.cons (took'.cons tookRight)
    rw [tookAll.rest] at base
    obtain ⟨pre', tookMore, spells'⟩ := ih.operators (Nat.lt_trans b.shorter lt)
      (.elvis (by simp [isPlain, question]) (by simp [isPlain, colon]) base spells) more
    exact ⟨_, tookAll.trans tookMore, by simpa using spells'⟩
  | @ternary _ _ _ _ _ b _ took question _ lt _ middle took' colon lt' right more value behind =>
    rw [value, behind]
    obtain ⟨pre, tookMiddle, spells⟩ := ih.expression lt middle
    obtain ⟨pre', tookRight, spells'⟩ := ih.expression lt' right
    have tookAll := took.cons (tookMiddle.trans (took'.cons tookRight))
    rw [(took'.cons tookRight).rest] at spells
    rw [tookAll.rest] at base
    simp only [List.cons_append, List.append_assoc] at base spells
    obtain ⟨pre'', tookMore, spells''⟩ := ih.operators (Nat.lt_trans b.shorter lt')
      (.ternary (by simp [isPlain, question]) (by simp [isPlain, colon]) base spells spells') more
    exact ⟨_, tookAll.trans tookMore, by simpa using spells''⟩
  | @binary _ _ _ b _ took sign _ lt right more value behind =>
    rw [value, behind]
    obtain ⟨pre, tookRight, spells⟩ := ih.expression lt right
    have tookAll := took.cons tookRight
    rw [tookAll.rest] at base
    obtain ⟨pre', tookMore, spells'⟩ := ih.operators (Nat.lt_trans b.shorter lt)
      (.binary (isPlain_of_operator sign) base spells) more
    exact ⟨_, tookAll.trans tookMore, by simpa using spells'⟩

/-- A word that is a literal has nothing inside. -/
theorem isAtom_of_wordLiteral {word : String} {b : Bool} {s : Span} {e : Expr}
    (h : wordLiteral? word b s = some e) : isAtom e ∧ e.span = s ∧ e.literalText? = none := by
  unfold wordLiteral? at h
  split at h
  all_goals first
    | (obtain rfl := Option.some.inj h; exact ⟨rfl, rfl, rfl⟩)
    | cases h

/-- A literal has nothing inside, and its token tells whether it is a text. -/
theorem isAtom_of_literal {t : Token} {e : Expr} (h : literal? t = some e) :
    isPlain t ∧ endsAtom t ∧ isAtom e ∧ e.span = t.span ∧ (e.literalText?.isSome → endsText t) := by
  unfold literal? at h
  split at h
  all_goals first
    | (rename_i hk
       obtain rfl := Option.some.inj h
       exact ⟨by simp [isPlain, hk], by simp [endsAtom, hk], rfl, rfl, by
         simp [Expr.literalText?, endsText, hk]⟩)
    | cases h

/-- A name with what belongs to an object or a class behind it. -/
theorem spelled_access {t : Token} {pre : List Token} {a : Expr} {next : Cursor} (plain : isPlain t)
    (took : Took c pre next) (tail : Tail pre)
    (value : ∀ s, a = .opaqueExpr (t.span.through (lastSpan s pre))) : SpelledFrom [t] c next a := by
  refine ⟨_, took, ?_⟩
  rw [value t.span]
  exact .opaqueName plain tail

/-- What begins with a name is spelled by its tokens. -/
theorem spelled_named (ih : Speller c.size) {name : String} {t : Token} {r : Peeked Expr c.size}
    (ht : t.kind = .ident name) (h : named name t c = .ok r) :
    SpelledFrom [t] c r.next r.value := by
  have plain : isPlain t := by simp [isPlain, ht]
  have ends : endsAtom t := by simp [endsAtom, ht]
  cases named_cases h with
  | literal word behind =>
    rw [behind]
    obtain ⟨atom, span, text⟩ := isAtom_of_wordLiteral word
    exact .refl (.atom plain ends atom span (by simp [text]))
  | creation _ access =>
    obtain ⟨pre, took, tail, value⟩ := access.tail ih (Nat.le_refl _)
    exact spelled_access plain took tail value
  | array _ _ took opens lt elements value behind =>
    rw [value, behind]
    obtain ⟨pre, took', spells⟩ := ih.items lt (.inl rfl) elements
    exact ⟨_, took.cons took', .array plain opens spells⟩
  | call _ _ took opens lt list value behind =>
    rw [value, behind]
    obtain ⟨pre, took', spells⟩ := ih.arguments lt list
    exact ⟨_, took.cons took', .call plain opens spells⟩
  | member _ took kind lt access value behind =>
    rw [value, behind]
    obtain ⟨pre, took', tail, same⟩ := (accessed_of_member access).tail ih (Nat.le_of_lt lt)
    exact spelled_access plain (took.cons took') (tail.cons (by simp [isPlain, kind])) fun _ ↦ same _
  | const _ _ _ value behind =>
    rw [value, behind]
    exact .refl (.atom plain ends rfl rfl (by simp [Expr.literalText?]))

/-- An operand is spelled by its tokens. -/
theorem spelled_primary (ih : Speller c.size) {r : Read Expr c.size} (h : primary c = .ok r) :
    Spelled c r.next (.expr r.value) := by
  cases primary_cases h with
  | literal took literal =>
    obtain ⟨plain, ends, atom, span, text⟩ := isAtom_of_literal literal
    exact ⟨_, took, .atom plain ends atom span text⟩
  | group took opens lt inner took' closes value =>
    rw [value]
    obtain ⟨pre, tookInner, spells⟩ := ih.expression lt inner
    rw [took'.rest] at spells
    exact ⟨_, took.cons (tookInner.trans took'), .paren opens closes spells⟩
  | array took opens lt elements value behind =>
    rw [value, behind]
    obtain ⟨pre, took', spells⟩ := ih.items lt (.inr rfl) elements
    exact ⟨_, took.cons took', .bracketed opens spells⟩
  | name took kind lt rest value behind =>
    rw [value, behind]
    obtain ⟨pre, took', spells⟩ := spelled_named (ih.mono (Nat.le_of_lt lt)) kind rest
    exact ⟨_, took.trans took', spells⟩

/-- A prefix operator is plain. -/
theorem isPlain_of_prefixOperator {t : Token} {op : UnaryOp} (h : prefixOperator? t = some op) :
    isPlain t := by
  unfold prefixOperator? at h
  split at h <;> simp_all [isPlain]

/-- An operand with what is in front of it is spelled by its tokens. -/
theorem spelled_unary (ih : Speller c.size) {r : Read Expr c.size} (h : unary c = .ok r) :
    Spelled c r.next (.expr r.value) := by
  cases unary_cases h with
  | sign took sign lt inner value behind =>
    rw [value, behind]
    obtain ⟨pre, took', spells⟩ := ih.expression lt inner
    exact ⟨_, took.cons took', .unary (isPlain_of_prefixOperator sign) spells⟩
  | cast took opens word closes lt inner value behind =>
    rw [value, behind]
    obtain ⟨pre, took', spells⟩ := ih.expression lt inner
    exact ⟨_, took.trans took', .cast opens (isPlain_of_castKind word) closes spells⟩
  | @plain _ base _ _ _ _ _ first more value behind =>
    rw [value, behind]
    obtain ⟨pre, took, spells⟩ := spelled_primary ih first
    obtain ⟨pre', took', spells'⟩ := ih.suffixes base.shorter spells more
    exact ⟨_, took.trans took', spells'⟩

/-- An expression is spelled by its tokens. -/
theorem spelled_expression (ih : Speller c.size) {min : Nat} {r : Read Expr c.size}
    (h : expression min c = .ok r) : Spelled c r.next (.expr r.value) := by
  obtain ⟨operand, whole, first, more, value, behind⟩ := exists_of_expression h
  rw [value, behind]
  obtain ⟨pre, took, spells⟩ := spelled_unary ih first
  obtain ⟨pre', took', spells'⟩ := ih.operators operand.shorter spells more
  exact ⟨_, took.trans took', spells'⟩

/-! ### Arguments and elements -/

theorem primary_last (s s' : Span) (ts : List Token) : primary ⟨s, ts⟩ = primary ⟨s', ts⟩ := by
  rw [primary, primary]
  cases ts <;> rfl

/-- What is read does not depend on the token read before. -/
theorem expression_last (min : Nat) (s s' : Span) (ts : List Token) :
    expression min ⟨s, ts⟩ = expression min ⟨s', ts⟩ := by
  have operand : unary ⟨s, ts⟩ = unary ⟨s', ts⟩ := by
    have cast : cast? ⟨s, ts⟩ = cast? ⟨s', ts⟩ := by
      -- A cast looks at three tokens.
      rcases ts with _ | ⟨t, _ | ⟨u, _ | ⟨v, ts⟩⟩⟩ <;> rfl
    rw [unary, unary, primary_last s s' ts, cast]
    cases ts with
    | nil => rfl
    | cons t ts =>
      obtain ⟨_, step⟩ := Cursor.advance_cons s t ts
      obtain ⟨_, step'⟩ := Cursor.advance_cons s' t ts
      rw [step, step']
      simp only [bind, Except.bind]
      cases prefixOperator? t with
      | some op => rfl
      | none =>
        cases isReferenceMark t with
        | true => rfl
        | false =>
          generalize cast? ⟨s', t :: ts⟩ = kind
          cases kind <;> rfl
  rw [expression, expression, operand]
  rfl

/-- An expression that is read on its own is one that was asked for, with nothing that could go on behind
it. -/
theorem asked_of_expression {r : Read Expr c.size} (h : expression 0 c = .ok r) {pre : List Token}
    (took : Took c pre r.next) (some : pre ≠ []) : Asked pre r.next.rest r.value := by
  obtain ⟨s, ts⟩ := c
  obtain ⟨value, ⟨last, rest⟩, shorter⟩ := r
  obtain ⟨hr, hl⟩ := took
  dsimp only at hr hl
  obtain ⟨t, pre, rfl⟩ := List.exists_cons_of_ne_nil some
  subst hr
  subst hl
  intro s'
  refine ⟨shorter, ?_⟩
  rw [expression_last 0 s' s, h]
  rfl

/-- Arguments are spelled by their tokens. -/
theorem spelled_arguments (ih : Speller c.size) {r : Read (List Expr × Span) c.size}
    (h : arguments c = .ok r) : Spelled c r.next (.args r.value.1 r.value.2) := by
  cases listed_of_arguments h with
  | close took closes value =>
    rw [value]
    exact ⟨_, took, .noArgs closes⟩
  | last _ inner took' closes value =>
    rw [value]
    obtain ⟨pre, took, spells⟩ := spelled_expression ih inner
    have asked := asked_of_expression inner took spells.some
    rw [took'.rest] at spells asked
    exact ⟨_, took.trans took', .lastArg closes spells asked⟩
  | more _ inner took' comma lt others value behind =>
    rw [value, behind]
    obtain ⟨pre, took, spells⟩ := spelled_expression ih inner
    obtain ⟨pre', tookMore, spells'⟩ := ih.arguments lt others
    have asked := asked_of_expression inner took spells.some
    rw [(took'.cons tookMore).rest] at spells asked
    exact ⟨_, took.trans (took'.cons tookMore), .moreArgs comma spells asked spells'⟩

/-- An element of an array is spelled by its tokens. -/
theorem spelled_item (ih : Speller c.size) {r : Read Item c.size} (h : item c = .ok r) :
    Spelled c r.next (.item r.value) := by
  cases element_of_item h with
  | value inner _ value behind =>
    rw [value, behind]
    obtain ⟨pre, took, spells⟩ := spelled_expression ih inner
    exact ⟨_, took, .value spells⟩
  | keyed inner took' arrow lt right value behind =>
    rw [value, behind]
    obtain ⟨pre, took, spells⟩ := spelled_expression ih inner
    obtain ⟨pre', tookRight, spells'⟩ := ih.expression lt right
    rw [(took'.cons tookRight).rest] at spells
    exact ⟨_, took.trans (took'.cons tookRight), .keyed (by simp [isPlain, arrow]) spells spells'⟩

/-- The elements of an array are spelled by their tokens. -/
theorem spelled_items (ih : Speller c.size) {p : Punct} (hp : p = .closeParen ∨ p = .closeBracket)
    {r : Read (List Item × Span) c.size} (h : items p c = .ok r) :
    Spelled c r.next (.items r.value.1 r.value.2) := by
  have ends : ∀ {t : Token}, t.kind = .punct p →
      t.kind = .punct .closeParen ∨ t.kind = .punct .closeBracket := by
    rintro t ht
    rcases hp with rfl | rfl <;> simp [ht]
  cases listed_of_items h with
  | close took closes value =>
    rw [value]
    exact ⟨_, took, .noItems (ends closes)⟩
  | last _ inner took' closes value =>
    rw [value]
    obtain ⟨pre, took, spells⟩ := spelled_item ih inner
    rw [took'.rest] at spells
    exact ⟨_, took.trans took', .lastItem (ends closes) spells⟩
  | more _ inner took' comma lt others value behind =>
    rw [value, behind]
    obtain ⟨pre, took, spells⟩ := spelled_item ih inner
    obtain ⟨pre', tookMore, spells'⟩ := ih.items lt hp others
    rw [(took'.cons tookMore).rest] at spells
    exact ⟨_, took.trans (took'.cons tookMore), .moreItems comma spells spells'⟩

/-- What the parser of expressions accepts is spelled. -/
theorem speller (n : Nat) : Speller n := by
  induction n with
  | zero =>
    exact ⟨fun lt ↦ absurd lt (Nat.not_lt_zero _), fun lt ↦ absurd lt (Nat.not_lt_zero _),
      fun lt ↦ absurd lt (Nat.not_lt_zero _), fun lt ↦ absurd lt (Nat.not_lt_zero _),
      fun lt ↦ absurd lt (Nat.not_lt_zero _)⟩
  | succ n ih =>
    have below : ∀ {c : Cursor}, c.size < n + 1 → Speller c.size := fun lt ↦
      ih.mono (Nat.le_of_lt_succ lt)
    exact {
      expression := fun lt h ↦ spelled_expression (below lt) h
      operators := fun lt base h ↦ spelled_operators (below lt) base h
      suffixes := fun lt base h ↦ spelled_suffixes (below lt) base h
      arguments := fun lt h ↦ spelled_arguments (below lt) h
      items := fun lt hp h ↦ spelled_items (below lt) hp h }

theorem spelled {min : Nat} {r : Read Expr c.size} (h : expression min c = .ok r) :
    Spelled c r.next (.expr r.value) := spelled_expression (speller c.size) h

end ConfigScript.Script
