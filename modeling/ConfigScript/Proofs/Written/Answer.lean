import ConfigScript.Proofs.Written.Read
import ConfigScript.Salt.Set
import Mathlib.Data.List.Forall2

/-!
# Answers of the salt service

The service answers with lines that define constants, whose values are lined up with blanks. An answer
that defines nothing twice, and nothing that every script may rely on, is read as the salts it was
written for, each with its name and its value (`Salt.parse_answer`): its statements are definitions in
the order of the lines (`Salt.Definition.parse_texts`), and running them adds the constants to the scope
(`Salt.Definition.execAll_effects`).
-/

namespace ConfigScript

open Script

namespace Salt

/-- A salt as the service writes it. -/
structure Definition where
  name : String
  /-- How many blanks stand in front of the value. -/
  blanks : Nat
  value : String

namespace Definition

/-- The line. -/
def text (d : Definition) : List Char :=
  "define".toList ++ ['('] ++ Quoted.quote d.name.toList ++ [','] ++ List.replicate d.blanks ' ' ++
    Quoted.quote d.value.toList ++ [')'] ++ [';'] ++ ['\n']

/-- The words of the line. -/
def words (d : Definition) : List Word :=
  [⟨[], .ident "define", "define".toList⟩, ⟨[], .punct .openParen, ['(']⟩,
    ⟨[], .str [.text d.name], Quoted.quote d.name.toList⟩, ⟨[], .punct .comma, [',']⟩,
    ⟨List.replicate d.blanks ' ', .str [.text d.value], Quoted.quote d.value.toList⟩,
    ⟨[], .punct .closeParen, [')']⟩, ⟨[], .punct .semicolon, [';']⟩]

theorem text_words (d : Definition) : Words.text d.words ++ ['\n'] = d.text := by
  unfold words text
  simp

/-! ### Parsing an answer -/

/-- The words of a line are cut apart, whatever follows. -/
theorem fit_words (d : Definition) (rest : List Char) : Words.Fit rest d.words := by
  have pad : Gap (List.replicate d.blanks ' ') := Gap.blanks fun c hc ↦ by
    rw [(List.mem_replicate.1 hc).2]
    decide
  exact ⟨Gap.nil, Row.fits_define _, Gap.nil, fits_bracket _ (by decide), Gap.nil, fits_string _ _,
    Gap.nil, fits_bracket _ (by decide), pad, fits_string _ _, Gap.nil, fits_bracket _ (by decide),
    Gap.nil, fits_bracket _ (by decide), trivial⟩

theorem lexes (d : Definition) (rest : List Char) (p : Place) :
    Lexes rest .script p d.text (Words.tokens p d.words) .script := by
  have cut := (Words.lexes (fit_words d (['\n'] ++ rest)) p).append
    ((Gap.blank (c := '\n') (by decide)) rest _)
  rwa [text_words, List.append_nil] at cut

/-- The statement of a line, at whatever places. -/
inductive IsStatement (d : Definition) : Stmt → Prop
  | intro (s₁ s₂ s₃ s₄ : Span) : IsStatement d
      (.expr s₁ (.call s₂ "define" [.str s₃ [.text d.name], .str s₄ [.text d.value]]))

/-- The tokens of lines that begin at `p`. -/
def tokens (p : Place) : List Definition → List Token
  | [] => []
  | d :: ds => Words.tokens p d.words ++ tokens (p.past d.text) ds

/-- The lines are cut into their tokens. -/
theorem lexes_texts (ds : List Definition) (p : Place) :
    Lexes [] .script p (ds.flatMap text) (tokens p ds) .script := by
  induction ds generalizing p with
  | nil => exact .done
  | cons d ds ih =>
    have here := d.lexes (ds.flatMap text ++ []) p
    exact here.append (ih (p.past d.text))

/-- The tokens of lines are parsed as the statements of the lines, in their order. -/
theorem parses_tokens (ds : List Definition) (p : Place) (s : Span) :
    ∃ stmts, statements ⟨s, tokens p ds⟩ = .ok stmts ∧ List.Forall₂ IsStatement ds stmts := by
  induction ds generalizing p s with
  | nil => exact ⟨[], statements_of_nil s, .nil⟩
  | cons d ds ih =>
    obtain ⟨last, stmt, here, first⟩ : ∃ last stmt, IsStatement d stmt ∧
        Yields (statement ⟨s, Words.tokens p d.words ++ tokens (p.past d.text) ds⟩) (some stmt)
          ⟨last, tokens (p.past d.text) ds⟩ :=
      ⟨_, _, .intro .., statement_of_define rfl rfl rfl rfl rfl rfl rfl⟩
    obtain ⟨stmts, parsed, more⟩ := ih (p.past d.text) last
    refine ⟨stmt :: stmts, ?_, .cons here more⟩
    rw [tokens, statements_of_statement first, parsed]
    rfl

/-- The statements of lines behind an opening tag. -/
theorem parse_texts (ds : List Definition) :
    ∃ stmts, Script.parse (Document.opening ++ ds.flatMap text) = .ok stmts ∧
      List.Forall₂ IsStatement ds stmts := by
  obtain ⟨stmts, parsed, these⟩ := parses_tokens ds Document.first Document.openingTag.span
  exact ⟨stmts, Document.parse_opening (lexes_texts ds Document.first) parsed, these⟩

/-! ### Running an answer -/

/-- The line of a document that defines the same. -/
def line (d : Definition) : Line := ⟨[], .fresh .const d.name d.value⟩

theorem legal_line (d : Definition) : d.line.Legal :=
  ⟨Filler.nil, .inl rfl, by simp [line, Row.fresh]⟩

variable {ds : List Definition}

/-- Lines that define nothing twice, and nothing that every script may rely on, add what they say to the
scope in which a file starts. -/
theorem effects_lines (distinct : (ds.map (·.name)).Nodup)
    (free : ∀ n ∈ ds.map (·.name), n ∉ Assoc.keys Scope.builtins) (path : Path) :
    Line.effects (ds.map line) (Reader.standard.start path) =
      ⟨Scope.builtins ++ ds.map fun d ↦ (d.name, .string d.value), [], [path]⟩ := by
  have legal : ∀ l ∈ ds.map line, l.Legal := by
    intro l hl
    obtain ⟨d, -, rfl⟩ := List.mem_map.1 hl
    exact d.legal_line
  have keys : Line.keys (ds.map line) = (ds.map (·.name)).map (EntryKind.const, ·) := by
    simp [Line.keys, line, Row.key, Row.fresh]
  have distinct' : (Line.keys (ds.map line)).Nodup := by
    rw [keys]
    exact List.Pairwise.map _ (fun m n ne eq ↦ ne (Prod.mk.inj eq).2) distinct
  have fresh : ∀ l ∈ ds.map line, Line.Fresh (Reader.standard.start path) l := by
    intro l hl
    obtain ⟨d, hd, rfl⟩ := List.mem_map.1 hl
    rw [Document.start_standard]
    exact free d.name (List.mem_map_of_mem hd)
  have constants : Line.constants (ds.map line) = ds.map fun d ↦ (d.name, .string d.value) := by
    simp [Line.constants, line, Row.fresh, Function.comp_def]
  have vars : Line.vars (ds.map line) = [] := by simp [Line.vars, line, Row.fresh]
  rw [Line.effects_of_fresh legal distinct' fresh, constants, vars, Document.start_standard]
  rfl

/-- The statement of a line defines its constant. -/
theorem IsStatement.exec {d : Definition} {stmt : Stmt} (h : d.IsStatement stmt) (f : Frame)
    (runner : Option Runner) (s : Scope) :
    (f.exec runner stmt).outcome s = (.ok .goOn, d.line.row.effect s) := by
  obtain ⟨s₁, s₂, s₃, s₄⟩ := h
  exact f.exec_define runner s₁ s₂ s₃ d.name (f.eval_text s s₄ d.value)

/-- The statements of lines define their constants one after the other. -/
theorem execAll_effects {stmts : List Stmt} (h : List.Forall₂ IsStatement ds stmts) (f : Frame)
    (runner : Option Runner) (s : Scope) :
    (f.execAll runner stmts).outcome s = (.ok .goOn, Line.effects (ds.map line) s) := by
  induction h generalizing s with
  | nil => rfl
  | cons here _ ih =>
    rw [Frame.execAll_cons _ (here.exec f runner s), ih]
    rfl

end Definition

/-- An answer without an opening tag is run behind one. -/
theorem parse_of_lines (env : Environment) (ds : List Definition) :
    parse env (ds.flatMap Definition.text) =
      (Reader.standard.readSource env (Document.opening ++ ds.flatMap Definition.text)
        answerPath).map (·.filterMap ofEntry?) := by
  have untagged : ['<', '?'].isPrefixOf (Text.trimStart (ds.flatMap Definition.text)) = false := by
    cases ds <;> rfl
  have tag : "<?php\n".toList = Document.opening := by decide
  rw [parse, untagged, tag]
  rfl

/-- An answer that defines nothing twice, and nothing that every script may rely on, reads back as what
was written. -/
theorem parse_answer (env : Environment) {ds : List Definition} (distinct : (ds.map (·.name)).Nodup)
    (free : ∀ n ∈ ds.map (·.name), n ∉ Assoc.keys Scope.builtins) :
    parse env (ds.flatMap Definition.text) = .ok (ds.map fun d ↦ (d.name, d.value)) := by
  obtain ⟨stmts, parsed, these⟩ := Definition.parse_texts ds
  have run := Definition.execAll_effects these
    ⟨env, Document.opening ++ ds.flatMap Definition.text, answerPath⟩ (some (runNested env 31))
    (Reader.standard.start answerPath)
  have free' : ∀ c ∈ ds.map fun d ↦ (d.name, Value.string d.value),
      c.1 ∉ Assoc.keys Scope.builtins := by
    intro c hc
    obtain ⟨d, hd, rfl⟩ := List.mem_map.1 hc
    exact free d.name (List.mem_map_of_mem hd)
  rw [Definition.effects_lines distinct free] at run
  rw [parse_of_lines, Reader.readSource_of_execAll parsed run, Document.diff_standard _ free',
    List.map_nil, List.nil_append, Except.map, List.map_map, List.filterMap_map]
  -- All values are texts, so nothing is left out.
  exact congrArg Except.ok (congrFun List.filterMap_eq_map ds)

/-- Names and values with quotes, backslashes, a line break and tags, with blanks and without. -/
theorem parse_answer_quoted : ∃ ds : List Definition,
    ds.flatMap Definition.text =
      "define('KEY\\'S',   'a\\\\');\ndefine('<?php','?>\n');\ndefine('', '$a\x7bb\x7d');\n".toList ∧
      parse .bare (ds.flatMap Definition.text) =
        .ok [("KEY'S", "a\\"), ("<?php", "?>\n"), ("", "$a\x7bb\x7d")] :=
  ⟨[⟨"KEY'S", 3, "a\\"⟩, ⟨"<?php", 0, "?>\n"⟩, ⟨"", 1, "$a\x7bb\x7d"⟩], by decide +kernel,
    parse_answer .bare (by decide) (by decide)⟩

end Salt

end ConfigScript
