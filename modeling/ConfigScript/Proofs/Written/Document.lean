import ConfigScript.Proofs.Written.Tail

/-!
# Written documents

A document is a file as this library writes and keeps it: the opening tag, rows with gaps between
them, and the end of a new file. Its text is that of a configuration file and its table what the
file is to define. The text of a sound document parses (`Document.Sound.parse_text`). In a legal one no
entry is defined twice, and none that means something else already.
-/

namespace ConfigScript

open Script

/-- A row on a line of its own, with the gap in front of it. -/
structure Line where
  gap : List Char
  row : Row

namespace Line

/-- The text of a line, with the gap in front of it and the line break behind it. -/
def text (l : Line) : List Char := l.gap ++ (l.row.text ++ ['\n'])

/-- The text of lines. -/
def texts (ls : List Line) : List Char := ls.flatMap text

/-- The tokens of lines that begin at `p`. -/
def tokens (p : Place) : List Line → List Token
  | [] => []
  | l :: ls => l.row.tokens (p.past l.gap) ++ tokens (p.past l.text) ls

/-- The statements of lines that begin at `p`. -/
def stmts (p : Place) : List Line → List Stmt
  | [] => []
  | l :: ls => l.row.stmt (p.past l.gap) :: stmts (p.past l.text) ls

/-- What lines are looked up by. -/
def keys (ls : List Line) : List (EntryKind × String) := ls.map (·.row.key)

@[simp]
theorem texts_nil : texts [] = [] := rfl

@[simp]
theorem texts_cons (l : Line) (ls : List Line) : texts (l :: ls) = l.text ++ texts ls := rfl

@[simp]
theorem texts_append (as bs : List Line) : texts (as ++ bs) = texts as ++ texts bs :=
  List.flatMap_append

/-- The statements of lines are those of the first lines and those of the others. -/
theorem stmts_append (p : Place) (as bs : List Line) :
    stmts p (as ++ bs) = stmts p as ++ stmts (p.past (texts as)) bs := by
  induction as generalizing p with
  | nil => rfl
  | cons l as ih =>
    rw [List.cons_append, stmts, stmts, ih, texts_cons, Place.past_append, List.cons_append]

end Line

/-- What may stand between rows: whole lines without tokens and without the marker. -/
structure Filler (g : List Char) : Prop where
  gap : Gap g
  whole : g = [] ∨ ∃ h, g = h ++ ['\n']
  clear : Text.Clear Edit.standardAnchor g

theorem Filler.nil : Filler [] := ⟨Gap.nil, .inl rfl, .nil⟩

/-- Filling text behind filling text is filling text. -/
theorem Filler.append {g h : List Char} (hg : Filler g) (hh : Filler h) : Filler (g ++ h) := by
  refine ⟨hg.gap.append hh.gap, ?_, hg.clear.append hh.clear⟩
  rcases hh.whole with rfl | ⟨k, rfl⟩
  · rw [List.append_nil]
    exact hg.whole
  · exact .inr ⟨g ++ k, by rw [List.append_assoc]⟩

namespace Line

/-- A line that may stand in a document. -/
structure Legal (l : Line) : Prop where
  filler : Filler l.gap
  row : l.row.Legal

/-- Lines are cut into their tokens, whatever follows. -/
theorem lexes {ls : List Line} (h : ∀ l ∈ ls, l.Legal) (rest : List Char) (p : Place) :
    Lexes rest .script p (texts ls) (tokens p ls) .script := by
  induction ls generalizing p with
  | nil => exact .done
  | cons l ls ih =>
    have here := h l List.mem_cons_self
    have gap := here.filler.gap ((l.row.text ++ ['\n']) ++ (texts ls ++ rest)) p
    have row := here.row.lexes (['\n'] ++ (texts ls ++ rest)) (p.past l.gap)
    have line := (Gap.blank (c := '\n') (by decide)) (texts ls ++ rest)
      ((p.past l.gap).past l.row.text)
    have more := ih (fun k hk ↦ h k (List.mem_cons_of_mem l hk)) (p.past l.text)
    have front : Lexes (texts ls ++ rest) .script p l.text (l.row.tokens (p.past l.gap)) .script := by
      simpa [text] using gap.append (row.append line)
    exact front.append more

/-- The tokens of lines are parsed as their statements, and parsing goes on behind them. -/
theorem parses {ls : List Line} (h : ∀ l ∈ ls, l.Legal) (p : Place) (s : Span)
    (rest : List Token) :
    ∃ last, statements ⟨s, tokens p ls ++ rest⟩ =
      (statements ⟨last, rest⟩).map (stmts p ls ++ ·) := by
  induction ls generalizing p s with
  | nil => exact ⟨s, by cases h : statements ⟨s, rest⟩ <;> simp [tokens, stmts, h, Except.map]⟩
  | cons l ls ih =>
    obtain ⟨last, first⟩ := (h l List.mem_cons_self).row.parses (p.past l.gap) s
      (tokens (p.past l.text) ls ++ rest)
    obtain ⟨last', more⟩ := ih (fun k hk ↦ h k (List.mem_cons_of_mem l hk)) (p.past l.text) last
    refine ⟨last', ?_⟩
    rw [tokens, List.append_assoc, statements_of_statement first, more]
    cases statements ⟨last', rest⟩ <;> rfl

/-- A row defines its entry where its value stands, and lines without a row for an entry do not
define it. -/
theorem inStmts_of_not_mem {ls : List Line} (h : ∀ l ∈ ls, l.Legal) (p : Place)
    {kind : EntryKind} {name : String} (hk : kind ≠ .inclusion) (hn : (kind, name) ∉ keys ls) :
    Occurrence.inStmts kind name (stmts p ls) = [] := by
  induction ls generalizing p with
  | nil => rfl
  | cons l ls ih =>
    have ne : l.row.key ≠ (kind, name) := by
      intro heq
      exact hn (heq ▸ List.mem_cons_self)
    rw [stmts, Occurrence.inStmts, Row.inStmt_stmt (h l List.mem_cons_self).row _ _ hk, if_neg ne,
      List.nil_append]
    exact ih (fun k hm ↦ h k (List.mem_cons_of_mem l hm)) _ fun hm ↦ hn (List.mem_cons_of_mem _ hm)

end Line

theorem Occurrence.inStmts_append (kind : EntryKind) (name : String) (as bs : List Stmt) :
    inStmts kind name (as ++ bs) = inStmts kind name as ++ inStmts kind name bs := by
  induction as with
  | nil => rfl
  | cons a as ih => rw [List.cons_append, inStmts, inStmts, ih, List.append_assoc]

/-- The opening tag and rows with gaps between them; the end of a new file follows. -/
structure Document where
  lines : List Line
  /-- What stands behind the last line, in front of the end. -/
  gap : List Char

/-- Names that mean something else already: what every script may rely on, and the constant that
the end of a new file defines. -/
def reservedNames : List String := "ABSPATH" :: Assoc.keys Scope.builtins

namespace Document

/-- The first line. -/
def opening : List Char := ['<', '?', 'p', 'h', 'p', '\n']

/-- The text up to the marker. -/
def body (d : Document) : List Char := opening ++ Line.texts d.lines ++ d.gap

/-- The text. -/
def text (d : Document) : List Char := d.body ++ Template.tail.toList

/-- What the text is to define. -/
def table (d : Document) : List ((EntryKind × String) × String) :=
  d.lines.map fun l ↦ (l.row.key, l.row.value)

/-- Every line and the gap are such as they are written. -/
structure Sound (d : Document) : Prop where
  lines : ∀ l ∈ d.lines, l.Legal
  filler : Filler d.gap

/-- Besides, no entry is defined twice, and none that means something else already. -/
structure Legal (d : Document) : Prop extends Sound d where
  distinct : (Line.keys d.lines).Nodup
  free : ∀ l ∈ d.lines, l.row.name ∉ reservedNames

/-- Where the first line behind the opening tag begins. -/
def first : Place := Place.start.past opening

/-- The token of the opening tag. -/
def openingTag : Token := tokenAt Place.start .openTag ['<', '?', 'p', 'h', 'p']

theorem lexes_opening (rest : List Char) :
    Lexes rest .html Place.start opening [openingTag] .script := lexes_openTag (.inr rfl) rest

/-- Behind the opening tag, a text has the statements that its tokens are read as. -/
theorem parse_opening {cs : List Char} {ts : List Token} {stmts : List Stmt}
    (cut : Lexes [] .script first cs ts .script)
    (read : statements ⟨openingTag.span, ts⟩ = .ok stmts) : parse (opening ++ cs) = .ok stmts := by
  have cut' : tokenize (opening ++ cs) = .ok (openingTag :: ts) :=
    ((lexes_opening _).append cut).tokensFrom_eq
  have parsed := statements_of_statement (statement_of_openTag default ts (t := openingTag) rfl)
  rw [read] at parsed
  simp only [parse, cut', bind, Except.bind, parseTokens, parsed]
  rfl

/-- Where the end of a new file begins. -/
def tailPlace (d : Document) : Place := Place.start.past d.body

/-- What stands behind the opening tag is cut into its tokens. -/
theorem lexes_body {d : Document} (h : d.Sound) :
    Lexes [] .script first (Line.texts d.lines ++ (d.gap ++ Template.tail.toList))
      (Line.tokens first d.lines ++ Template.tailTokens d.tailPlace) .script := by
  have place : (first.past (Line.texts d.lines)).past d.gap = d.tailPlace := by
    rw [tailPlace, body, Place.past_append, Place.past_append, first]
  exact (Line.lexes h.lines _ first).append
    ((h.filler.gap _ _).append (place ▸ Template.lexes_tail _))

/-- The text parses: its statements are those of its lines and two more. -/
theorem Sound.parse_text {d : Document} (h : d.Sound) :
    ∃ guard bootstrap, parse d.text = .ok (Line.stmts first d.lines ++ [guard, bootstrap]) ∧
      Template.IsGuard guard ∧ Template.IsBootstrap bootstrap := by
  obtain ⟨last, lines⟩ := Line.parses h.lines first openingTag.span (Template.tailTokens d.tailPlace)
  obtain ⟨guard, bootstrap, tail, hg, hb⟩ := Template.parses_tail d.tailPlace last
  rw [tail] at lines
  have parsed := parse_opening (lexes_body h) lines
  rw [← List.append_assoc, ← List.append_assoc] at parsed
  exact ⟨guard, bootstrap, parsed, hg, hb⟩

end Document

end ConfigScript
