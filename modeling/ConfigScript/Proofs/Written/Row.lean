import ConfigScript.Edit.Change
import ConfigScript.Proofs.Lexing.Word
import ConfigScript.Proofs.Parsing.Yields

/-!
# Written entries

A row is an entry as this library writes it: a line that defines a constant with `define` or assigns
a variable, with quoted texts for the name and the value. Constants may have further blanks in front
of the value, which is how salts are lined up.

Everything that later modules need of a row is stated here once, at whatever place its line begins:
its text is cut into known tokens (`Row.Legal.lexes`), these make up a known statement (`Row.Legal.parses`), and
that statement defines the entry of the row and nothing else (`Row.inStmt_stmt`).
-/

namespace ConfigScript

open Script

/-- An entry as it is written. -/
structure Row where
  kind : EntryKind
  name : String
  /-- The blanks in front of the value of a constant. -/
  padding : List Char
  value : String

namespace Row

/-- What an entry is looked up by. -/
def key (r : Row) : EntryKind × String := (r.kind, r.name)

/-- The entry may be written: a constant of any name, or a variable with the name of one. -/
structure Legal (r : Row) : Prop where
  kind : r.kind = .const ∨ r.kind = .var ∧ Edit.isVariableName r.name.toList
  padding : ∀ c ∈ r.padding, c = ' '

/-- The statement up to its value. -/
def lead (r : Row) : List Char :=
  match r.kind with
  | .var => '$' :: r.name.toList ++ [' '] ++ ['='] ++ [' ']
  | _ => "define".toList ++ ['('] ++ [' '] ++ Quoted.quote r.name.toList ++ [','] ++ r.padding

/-- The statement behind its value. -/
def trail (r : Row) : List Char :=
  match r.kind with
  | .var => [';']
  | _ => [' '] ++ [')'] ++ [';']

/-- The statement. -/
def text (r : Row) : List Char := r.lead ++ Quoted.quote r.value.toList ++ r.trail

/-- The row that is written for a new entry. -/
def fresh (kind : EntryKind) (name value : String) : Row := ⟨kind, name, [' '], value⟩

theorem text_fresh (kind : EntryKind) (name value : String) :
    (fresh kind name value).text =
      Edit.statement kind name (Quoted.quote value.toList) := by
  cases kind <;> simp [fresh, text, lead, trail, Edit.statement]

/-- The words of the statement. -/
def words (r : Row) : List Word :=
  match r.kind with
  | .var =>
    [⟨[], .var r.name, '$' :: r.name.toList⟩, ⟨[' '], .punct .assign, ['=']⟩,
      ⟨[' '], .str [.text r.value], Quoted.quote r.value.toList⟩, ⟨[], .punct .semicolon, [';']⟩]
  | _ =>
    [⟨[], .ident "define", "define".toList⟩, ⟨[], .punct .openParen, ['(']⟩,
      ⟨[' '], .str [.text r.name], Quoted.quote r.name.toList⟩, ⟨[], .punct .comma, [',']⟩,
      ⟨r.padding, .str [.text r.value], Quoted.quote r.value.toList⟩,
      ⟨[' '], .punct .closeParen, [')']⟩, ⟨[], .punct .semicolon, [';']⟩]

theorem text_words (r : Row) : Words.text r.words = r.text := by
  obtain ⟨kind, name, padding, value⟩ := r
  cases kind <;> simp [words, text, lead, trail]

/-! ### Cutting a row -/

theorem isNameStart_of_variable {c : Char} (h : c = '_' ∨ c.isAlpha) : isNameStart c := by
  rcases h with rfl | h
  · decide
  · simp [isNameStart, h]

/-- The names of variables are names of the language. -/
theorem name_of_isVariableName {cs : List Char} (h : Edit.isVariableName cs) :
    ∃ c r, cs = c :: r ∧ isNameStart c ∧ ∀ d ∈ r, isNameChar d := by
  cases cs with
  | nil => cases h
  | cons c r =>
    simp only [Edit.isVariableName, Bool.and_eq_true, Bool.or_eq_true, beq_iff_eq,
      List.all_eq_true] at h
    refine ⟨c, r, rfl, isNameStart_of_variable h.1, fun d hd ↦ ?_⟩
    rcases h.2 d hd with rfl | hd
    · decide
    · simp only [Char.isAlphanum, Bool.or_eq_true] at hd
      rcases hd with hd | hd <;> simp [isNameChar, isNameStart, hd]

theorem gap_blank : Gap [' '] := Gap.blank (by decide)

/-- The name of the function that defines constants fits in front of its arguments. -/
theorem fits_define (rest : List Char) : Fits (.ident "define") "define".toList ('(' :: rest) :=
  fits_ident (c := 'd') (r := "efine".toList) (by decide) (List.all_eq_true.1 (by decide))
    (by rintro c ⟨⟩; decide)

/-- The words of a row are cut apart, whatever follows. -/
theorem fit_words {r : Row} (h : r.Legal) (rest : List Char) : Words.Fit rest r.words := by
  obtain ⟨kind, name, padding, value⟩ := r
  rcases h.kind with rfl | ⟨rfl, hn⟩
  · have pad : Gap padding := Gap.blanks fun c hc ↦ by rw [h.padding c hc]; decide
    exact ⟨Gap.nil, fits_define _, Gap.nil, fits_bracket _ (by decide), gap_blank, fits_string _ _,
      Gap.nil, fits_bracket _ (by decide), pad, fits_string _ _, gap_blank,
      fits_bracket _ (by decide), Gap.nil, fits_bracket _ (by decide), trivial⟩
  · obtain ⟨c, r, hcs, hc, hr⟩ := name_of_isVariableName hn
    refine ⟨Gap.nil, ?_, gap_blank, ⟨'=', [], rfl, rfl⟩, gap_blank, fits_string _ _, Gap.nil,
      fits_bracket _ (by decide), trivial⟩
    have name' : name = String.ofList (c :: r) := by
      rw [← hcs]
      simp
    simp only
    rw [hcs, name']
    exact fits_var hc hr (by rintro d ⟨⟩; decide)

/-- The tokens of a statement that begins at `p`. -/
def tokens (r : Row) (p : Place) : List Token := Words.tokens p r.words

theorem Legal.lexes {r : Row} (h : r.Legal) (rest : List Char) (p : Place) :
    Lexes rest .script p r.text (r.tokens p) .script := by
  have cut := Words.lexes (fit_words h rest) p
  rwa [text_words] at cut

/-! ### Parsing a row -/

/-- Where the value stands. -/
def valueSpan (r : Row) (p : Place) : Span :=
  Span.ofPlace (p.past r.lead) ((p.past r.lead).past (Quoted.quote r.value.toList)).offset

/-- Where the statement stands. -/
def span (r : Row) (p : Place) : Span := Span.ofPlace p (p.past r.text).offset

/-- The statement. -/
def stmt (r : Row) (p : Place) : Stmt :=
  let value : Expr := .str (r.valueSpan p) [.text r.value]
  match r.kind with
  | .var => .assign (r.span p) .assign ⟨r.name, [], Span.ofPlace p (p.past ('$' :: r.name.toList)).offset⟩ value
  | _ =>
    let before := p.past ("define".toList ++ ['('] ++ [' '])
    let name := Quoted.quote r.name.toList
    let call := r.lead ++ Quoted.quote r.value.toList ++ [' '] ++ [')']
    .expr (r.span p)
      (.call (Span.ofPlace p (p.past call).offset)
        "define" [.str (Span.ofPlace before (before.past name).offset) [.text r.name], value])

theorem through_ofPlace (p q : Place) {a b : Nat} (h : a ≤ b) :
    (Span.ofPlace p a).through (Span.ofPlace q b) = Span.ofPlace p b := by
  simp [Span.through, Span.ofPlace, h]

/-- The tokens of a row are read as its statement, whatever stands before and behind them. -/
theorem Legal.parses {r : Row} (h : r.Legal) (p : Place) (s : Span) (rest : List Token) :
    ∃ last, Yields (statement ⟨s, r.tokens p ++ rest⟩) (some (r.stmt p)) ⟨last, rest⟩ := by
  obtain ⟨kind, name, padding, value⟩ := r
  rcases h.kind with rfl | ⟨rfl, hn⟩
  · refine ⟨_, (statement_of_define rfl rfl rfl rfl rfl rfl rfl).of_eq ?_⟩
    simp only [stmt, tokenAt, span, valueSpan, text, lead, trail, List.nil_append,
      Place.past_append, Place.past_nil]
    rw [through_ofPlace, through_ofPlace]
    · simp only [Place.offset_past]
      omega
    · simp only [Place.offset_past]
      omega
  · refine ⟨_, (statement_of_assign rfl rfl rfl rfl).of_eq ?_⟩
    simp only [stmt, tokenAt, span, valueSpan, text, lead, trail, List.nil_append,
      Place.past_append, Place.past_nil]
    rw [through_ofPlace, through_ofPlace _ _ (Nat.le_refl _)]
    simp only [Place.offset_past]
    omega

/-- A call of `define` defines the name that its first argument is the text of. -/
theorem definedValue?_define (name : String) (s : Span) (e v : Expr) (rest : List Expr) :
    Occurrence.definedValue? name (.call s "define" (e :: v :: rest)) =
      if e.literalText? = some name then some v else none := by
  have word : sameWord "define".toList "define".toList = true := by decide
  rw [Occurrence.definedValue?, word, Bool.true_and]
  simp only [beq_iff_eq]

/-- The statement of a row defines the entry of the row and nothing else. -/
theorem inStmt_stmt {r : Row} (h : r.Legal) (p : Place) {kind : EntryKind} (name : String)
    (hk : kind ≠ .inclusion) :
    Occurrence.inStmt kind name (r.stmt p) =
      if r.key = (kind, name) then [⟨some (r.span p), r.valueSpan p⟩] else [] := by
  obtain ⟨rk, rn, padding, value⟩ := r
  have leaf : ∀ s ps, Occurrence.definedValue? name (.str s ps) = none := fun _ _ ↦ rfl
  rcases h.kind with rfl | ⟨rfl, -⟩ <;> cases kind
  · simp only [stmt, Occurrence.inStmt, Occurrence.inExpr, if_true, Expr.nodes, Expr.listNodes,
      List.nil_append, List.append_nil, List.cons_append, List.filterMap_cons, List.filterMap_nil,
      definedValue?_define, leaf, Expr.literalText?, Option.some.injEq, key, Prod.mk.injEq,
      true_and]
    by_cases hn : rn = name <;> simp [hn, Expr.span]
  · simp [stmt, Occurrence.inStmt, key]
  · exact absurd rfl hk
  · simp [stmt, Occurrence.inStmt, Occurrence.inExpr, Expr.nodes, leaf, key]
  · by_cases hn : rn = name <;>
      simp [stmt, Occurrence.inStmt, Occurrence.inAssignment, key, hn, Expr.span]
  · exact absurd rfl hk

end Row

end ConfigScript
