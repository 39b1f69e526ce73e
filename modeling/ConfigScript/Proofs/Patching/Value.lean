import ConfigScript.Proofs.Parsing.Excerpt
import ConfigScript.Proofs.Patching.Replace
import ConfigScript.Proofs.Written.Row
import ConfigScript.Script.Parser

/-!
# Texts of values

A text is that of a value if a script assigns the whole of it to a variable (`ValueText`); a quoted text
is one. Wherever a value stands, its tokens may be exchanged for those of such a text, for the parser
reads the same expression in front of whatever ends a value (`ValueText.exchanged`). The two places are
loose twins: in the one a semicolon follows, in the other one something else that ends a value.
-/

namespace ConfigScript.Script

/-! ### Elsewhere -/

/-- A part of tokens in a row that ends where the first of two parts does is that part. -/
theorem eq_of_lastSpan {lo hi : Nat} {rs behind pre rest : List Token} (covers : Covers lo hi rs)
    (after : ∀ t ∈ behind, hi < t.span.stop) (same : pre ++ rest = rs ++ behind) (some : pre ≠ [])
    {s : Span} (stop : (lastSpan s pre).stop = hi) : pre = rs := by
  rcases List.append_eq_append_iff.1 same with ⟨x, rfl, -⟩ | ⟨x, rfl, parts⟩
  · cases x with
    | nil => simp
    | cons t x =>
      obtain ⟨m, n, front, le, back⟩ := covers.split some (by simp)
      have := front.lastSpan s
      have := back.lt
      omega
  · rcases List.eq_nil_or_concat x with rfl | ⟨x, t, rfl⟩
    · simp
    · have := after t (by simp [parts])
      simp only [List.concat_eq_append, lastSpan_append, lastSpan_cons, lastSpan_nil] at stop
      omega

/-- What the parser reads in front of a semicolon, it reads at another place in front of what ends a
value. -/
theorem Asked.moved {us : List Token} {semicolon next : Token} {after : List Token} {e : Expr}
    {a b : Place} {lo hi : Nat} (asked : Asked us [semicolon] e)
    (stop : semicolon.isPunct .semicolon) (ends : endsValue next)
    (covers : Covers lo hi (us.map (Token.moved a b)))
    (behind : ∀ t ∈ next :: after, hi < t.span.stop)
    (last : ∀ s, (lastSpan s us).stop - a.offset + b.offset = hi) :
    Asked (us.map (Token.moved a b)) (next :: after) ((Patch.moving a b).expr e) := by
  let w : Twinning := ⟨.moving a b, False, False, fun _ _ ↦ False⟩
  have off : ∀ s, w.patch.Off s := fun s h hole ↦ nomatch hole
  have twins : ∀ ts : List Token,
      Twins w (ts ++ [semicolon]) (ts.map (Token.moved a b) ++ next :: after) := by
    intro ts
    induction ts with
    | nil => exact .ends _ _ id stop ends
    | cons t ts ih => exact .cons (w := w) (off t.span) (fun _ _ _ _ hole ↦ hole.elim) ih
  have sound : w.Sound := fun hole ↦ hole.elim
  obtain ⟨_, read⟩ := asked default
  have start : w.At ⟨default, us ++ [semicolon]⟩
      ⟨w.patch.move default, us.map (Token.moved a b) ++ next :: after⟩ := ⟨rfl, twins us⟩
  have agree := Twinning.expression_agree (Twinning.mirror sound _) start 0
  rw [read] at agree
  cases found : expression 0 ⟨w.patch.move default, us.map (Token.moved a b) ++ next :: after⟩ with
  | error e' =>
    rw [found] at agree
    exact agree.elim
  | ok r =>
    rw [found] at agree
    obtain ⟨⟨same, -⟩, at'⟩ := agree
    obtain ⟨pre, took, spells⟩ := spelled found
    have stops : (lastSpan (w.patch.move default) pre).stop = hi := by
      rw [← took.last, at'.last, ← last default]
      rfl
    obtain rfl := eq_of_lastSpan covers behind took.rest.symm spells.some stops
    have again := asked_of_expression found took spells.some
    rw [same] at again
    have rest := List.append_cancel_left took.rest
    rwa [← rest] at again

/-! ### Texts of values -/

/-- What stands in front of the value in an assignment to `$x`. -/
def assigning : List Char := "<?php $x = ".toList

/-- The script that assigns the value with the text `r` is an assignment, and its value `e` spans
exactly this text. -/
structure ValueText (r : List Char) (e : Expr) : Prop where
  parsed : ∃ s t, parse (assigning ++ (r ++ [';'])) = .ok [.assign s .assign t e]
  start : e.span.start = Text.byteLength assigning
  stop : e.span.stop = Text.byteLength assigning + Text.byteLength r

/-- A text is cut at a byte in one way only. -/
theorem append_inj_byteLength {a b c d : List Char} (same : a ++ b = c ++ d)
    (length : Text.byteLength a = Text.byteLength c) : a = c ∧ b = d := by
  have front := congrArg (Text.takeBytes (Text.byteLength a)) same
  rw [Text.takeBytes_byteLength_append, length, Text.takeBytes_byteLength_append] at front
  subst front
  exact ⟨rfl, List.append_cancel_left same⟩

/-- What a parsed text is cut into. -/
theorem exists_of_parse {source : List Char} {body : List Stmt} (h : parse source = .ok body) :
    ∃ ts m, Lexes [] .html .start source ts m ∧ statements ⟨default, ts⟩ = .ok body := by
  unfold parse at h
  cases read : tokenize source with
  | error e => rw [read] at h; cases h
  | ok ts =>
    rw [read] at h
    obtain ⟨m, lexes⟩ := exists_lexes read
    replace h : parseTokens ts = .ok body := h
    unfold parseTokens at h
    cases made : statements ⟨default, ts⟩ with
    | error e => rw [made] at h; cases h
    | ok ss =>
      rw [made] at h
      exact ⟨ts, m, lexes, made.trans (congrArg Except.ok (Except.ok.inj h))⟩

/-- A text whose tokens are those of statements is parsed into them. -/
theorem parse_of_lexes {source : List Char} {ts : List Token} {m : Mode} {body : List Stmt}
    (lexes : Lexes [] .html .start source ts m) (made : statements ⟨default, ts⟩ = .ok body) :
    parse source = .ok body := by
  have read : tokenize source = .ok ts := lexes.tokensFrom_eq
  unfold parse
  rw [read]
  show parseTokens ts = _
  rw [parseTokens, made]
  rfl

/-- Where the value stands in an assignment to `$x`. -/
def assignedPlace : Place := Place.start.past assigning

namespace ValueText

variable {r : List Char} {e : Expr}

/-- The tokens of the text of a value, in front of a semicolon. -/
theorem tokens (h : ValueText r e) : ∃ us semicolon, semicolon.isPunct .semicolon ∧
    Lexes [';'] .script assignedPlace r us .script ∧ Spells [semicolon] us (.expr e) ∧
    Asked us [semicolon] e ∧ Covers e.span.start e.span.stop us ∧
    ∀ u ∈ us.head?, BeginsWith u.kind (r ++ [';']) := by
  obtain ⟨⟨s, t, parsed⟩, start, stop⟩ := h
  obtain ⟨ts, m, lexes, made⟩ := exists_of_parse parsed
  have laid := lexes.laid.1
  have holds : Holds [] ts _ := holds_of_statements made
  obtain ⟨before, lead, us, next, after, placed⟩ := holds.placed (v := e)
    (.assigned (by simp [Stmt.rootsOfList, Stmt.roots]))
  obtain ⟨covers, -⟩ := placed.covers laid
  rw [placed.parts] at lexes
  obtain ⟨x, w, y, text, -, inner, back, begin', end', begins⟩ := lexes.excerpt placed.spells.enclosed
    placed.spells.some (.inr placed.alone) covers
  rw [Place.offset_past, Place.start, Nat.zero_add] at begin' end'
  rw [Text.byteLength_append] at end'
  have front : Text.byteLength assigning = Text.byteLength x := by omega
  obtain ⟨rfl, inside⟩ := append_inj_byteLength text front
  have length : Text.byteLength r = Text.byteLength w := by omega
  obtain ⟨rfl, rfl⟩ := append_inj_byteLength inside length
  have only := back.tokensFrom_eq.symm.trans
    ((fits_bracket (p := .semicolon) (c := ';') [] (by simp)).lexes _).tokensFrom_eq
  obtain ⟨rfl, rfl⟩ := List.cons.inj (Except.ok.inj only)
  exact ⟨us, _, by rfl, inner, placed.spells, placed.asked, covers, begins⟩

/-- The text of a value does not go on with an equals sign in front of it. -/
theorem head (h : ValueText r e) : ∃ c w, r = c :: w ∧ c ≠ '=' ∧ c ≠ '>' := by
  obtain ⟨us, semicolon, -, lexes, spells, asked, covers, begins⟩ := h.tokens
  obtain ⟨u, us, rfl⟩ := List.exists_cons_of_ne_nil spells.some
  obtain ⟨t, ts, same, operand⟩ := Twinning.begins_of_yields (asked default)
  obtain ⟨rfl, -⟩ := List.cons.inj same
  cases r with
  | nil => cases lexes
  | cons c w =>
    have differs : ¬(c = '=' ∨ c = '>') := by
      intro hc
      obtain ⟨q, kind, head⟩ := (begins u rfl).punct hc
      rw [beginsOperand, kind] at operand
      rcases hc with rfl | rfl <;> cases q <;>
        first | exact absurd head (by decide) | exact absurd operand (by decide)
    exact ⟨c, w, rfl, fun hc ↦ differs (.inl hc), fun hc ↦ differs (.inr hc)⟩

/-- In front of whatever ends a value, the text of a value may take the place of another one. -/
theorem exchanged (h : ValueText r e) {here p : Place} {v : Expr} {next : Token} {after : List Token}
    {rest : List Char} (ends : endsHere rest) (start : here.offset = v.span.start)
    (place : p.offset = v.span.stop) (stops : endsValue next)
    (behind : ∀ t ∈ next :: after, v.span.stop ≤ t.span.start ∧ t.span.start < t.span.stop) :
    ∃ rs, Lexes rest .script here r rs .script ∧
      Exchanged v p (here.past r) rs (next :: after) ((Patch.moving assignedPlace here).expr e) := by
  obtain ⟨us, semicolon, isSemicolon, lexes, spells, asked, covers, -⟩ := h.tokens
  have closed := spells.enclosed
  have stop : e.span.stop = (assignedPlace.past r).offset := by
    rw [h.stop, assignedPlace, Place.offset_past, Place.offset_past, Place.start, Nat.zero_add]
  -- The value ends with a token that ends wherever another may begin, so what follows does not matter.
  have firm : Lexes.EndsFirm assignedPlace r us := by
    obtain ⟨us₀, t, rfl, ends⟩ := spells.endsAtom
    refine ⟨t, List.getLast?_concat, ?_, isFirm_of_endsAtom ends⟩
    have last := covers.lastSpan default
    rw [lastSpan_append, lastSpan_cons, lastSpan_nil] at last
    rw [last, stop]
  obtain ⟨cut, -⟩ := lexes.exchange_ends rfl ends rfl
    (fun t ht hk ↦ by have := (closed.ne_openTag ht).2; rw [hk] at this; cases this) (.inr firm)
  have moved := cut.moved (p := assignedPlace) (q := here) (.refl _)
  rw [Place.moved_self] at moved
  have low : assignedPlace.offset = e.span.start := by
    rw [h.start, assignedPlace, Place.offset_past, Place.start, Nat.zero_add]
  have high : e.span.stop - assignedPlace.offset + here.offset = (here.past r).offset := by
    rw [low, h.stop, h.start, Place.offset_past]
    omega
  have covers' := covers.moved (a := assignedPlace) (b := here) (Nat.le_of_eq low)
  rw [high] at covers'
  have span : ((Patch.moving assignedPlace here).expr e).span =
      e.span.moved assignedPlace here := Patch.span_expr fun _ none ↦ absurd none (Option.not_mem_none _)
  refine ⟨us.map (Token.moved assignedPlace here), moved, ?_⟩
  exact {
    place := place
    le := by rw [Place.offset_past]; omega
    some := by simpa using spells.some
    closed := closed.map fun _ ↦ rfl
    asked := by
      refine asked.moved isSemicolon (show endsValue (next.moved p (here.past r)) from stops) covers' ?_
        fun s ↦ ?_
      · intro t ht
        obtain ⟨u, mem, rfl⟩ := List.mem_map.1 (show t ∈ (next :: after).map (Token.moved p _) from ht)
        obtain ⟨le, lt⟩ := behind u mem
        show _ < u.span.stop - p.offset + _
        omega
      · rw [covers.lastSpan, high]
    last := fun s ↦ covers'.lastSpan s
    stop := by rw [span]; exact high }

/-- A quoted text is the text of a value. -/
theorem quote (cs : List Char) : ValueText (Quoted.quote cs)
    (.str (Span.ofPlace assignedPlace (assignedPlace.past (Quoted.quote cs)).offset)
      [.text (String.ofList cs)]) := by
  have legal : (Row.fresh .var "x" (String.ofList cs)).Legal :=
    ⟨.inr ⟨rfl, (by decide : Edit.isVariableName "x".toList)⟩, fun c hc ↦ List.mem_singleton.1 hc⟩
  let p : Place := Place.start.past "<?php ".toList
  let row := Row.fresh .var "x" (String.ofList cs)
  have lead : assigning = "<?php ".toList ++ row.lead := by
    show _ = _ ++ ('$' :: "x".toList ++ [' '] ++ ['='] ++ [' '])
    decide
  have content : row.value.toList = cs := String.toList_ofList
  have text : assigning ++ (Quoted.quote cs ++ [';']) = "<?php ".toList ++ row.text := by
    rw [Row.text, content, lead]
    simp only [List.append_assoc]
    rfl
  let tag := tokenAt Place.start .openTag "<?php".toList
  have lexes : Lexes [] .html .start (assigning ++ (Quoted.quote cs ++ [';']))
      (tag :: row.tokens p) .script := by
    rw [text]
    exact (lexes_openTag (.inl rfl) _).append (legal.lexes [] p)
  obtain ⟨last, parsed⟩ := legal.parses p tag.span []
  rw [List.append_nil] at parsed
  have made : statements ⟨default, tag :: row.tokens p⟩ = .ok [row.stmt p] := by
    rw [statements_of_statement (statement_of_openTag default _ rfl),
      statements_of_statement parsed, statements_of_nil]
    rfl
  have value : row.valueSpan p =
      Span.ofPlace assignedPlace (assignedPlace.past (Quoted.quote cs)).offset := by
    rw [Row.valueSpan, content, assignedPlace, lead, Place.past_append]
  refine ⟨⟨row.span p, ⟨"x", [], Span.ofPlace p (p.past ('$' :: "x".toList)).offset⟩, ?_⟩, ?_, ?_⟩
  · rw [parse_of_lexes lexes made, ← value]
    rfl
  · show assignedPlace.offset = _
    rw [assignedPlace, Place.offset_past, Place.start, Nat.zero_add]
  · show (assignedPlace.past _).offset = _
    rw [Place.offset_past, assignedPlace, Place.offset_past, Place.start, Nat.zero_add]

end ValueText

end ConfigScript.Script
