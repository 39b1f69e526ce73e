import ConfigScript.Script.Parser.Expression

/-!
# Parsing statements

A statement is first read by its grammar. If that fails, for whatever reason, it is skipped instead:
brackets are balanced up to the semicolon or the brace that ends it, and an opaque statement stands
for what was skipped. So an unknown construct does not spoil the statements around it; only brackets
that do not match make a text unreadable.
-/

namespace ConfigScript.Script

/-- Words that begin a statement which is not supported. -/
def isUnsupportedStatement (word : String) : Bool :=
  ["echo", "print", "function", "class", "interface", "trait", "enum", "abstract", "final",
    "readonly", "namespace", "use", "declare", "for", "foreach", "while", "do", "switch", "try",
    "throw", "goto", "static", "else", "elseif"].contains word

/-- The statement that loads a file which the keyword begins. -/
def includeKind? (word : String) : Option IncludeKind :=
  match word with
  | "include" => some .includeFile
  | "include_once" => some .includeOnce
  | "require" => some .requireFile
  | "require_once" => some .requireOnce
  | _ => none

/-- The assignment that a punctuation token makes. -/
def assignOp? (t : Token) : Option AssignOp :=
  match t.kind with
  | .punct .assign => some .assign
  | .punct .concatAssign => some .concat
  | .punct .plusAssign => some .add
  | .punct .minusAssign => some .sub
  | .punct .coalesceAssign => some .coalesce
  | _ => none

/-! ### Statements without others inside -/

/-- The indices of a target; `stop` is the span of what stands before them. -/
def indices (stop : Span) (c : Cursor) : Parse (Peeked (List (Option Expr) × Span) c.size) :=
  match c.punct? .openBracket with
  | none => .ok (c.stay ([], stop))
  | some bracket =>
    have := bracket.shorter
    match bracket.next.punct? .closeBracket with
    | some close => do
      have := close.shorter
      let more ← indices close.value.span close.next
      let all := more.map fun (rest, stop) => (none :: rest, stop)
      return (bracket.andThen (close.andMaybe all)).peeked
    | none => do
      let index ← expression 0 bracket.next
      have := index.shorter
      let close ← index.next.expect .closeBracket
      have := close.shorter
      let more ← indices close.value close.next
      let all := more.map fun (rest, stop) => (some index.value :: rest, stop)
      return (bracket.andThen (index.andThen (close.andMaybe all))).peeked
termination_by c.size

/-- A variable with indices. -/
def target (c : Cursor) : Parse (Read Target c.size) := do
  let t ← c.advance
  match t.value.kind with
  | .var name =>
    let list ← indices t.value.span t.next
    return t.andMaybe (list.map fun (is, stop) => ⟨name, is, t.value.span.through stop⟩)
  | _ => unexpected t.value

/-- An assignment, if what begins with a target is one. -/
def assignment? (c : Cursor) : Parse (Option (Read Stmt c.size)) := do
  let left ← target c
  match left.next.advance with
  | .error _ => return none
  | .ok t =>
    match assignOp? t.value with
    | none => return none
    | some op =>
      if t.next.atPunct .ampersand then t.next.unsupported .references
      else
        let value ← expression 0 t.next
        let stop ← value.next.terminator value.value.span
        let whole := left.andThen (t.andThen (value.andMaybe stop))
        return some <| whole.map fun stop =>
          .assign (left.value.span.through stop) op left.value value.value

/-- An expression as a statement. -/
def expressionStatement (c : Cursor) : Parse (Read Stmt c.size) := do
  let first ← c.advance
  let e ← expression 0 c
  let stop ← e.next.terminator e.value.span
  return e.andMaybe (stop.map fun stop => .expr (first.value.span.through stop) e.value)

/-- The path of a statement that loads a file; `start` is its keyword. -/
def loadStatement (start : Span) (kind : IncludeKind) (c : Cursor) :
    Parse (Read Stmt c.size) := do
  let path ← expression 0 c
  let stop ← path.next.terminator path.value.span
  return path.andMaybe (stop.map fun stop => .load (start.through stop) kind path.value)

/-- The names that a `const` declaration declares. -/
def constItems (c : Cursor) : Parse (Read (List ConstItem) c.size) := do
  let t ← c.advance
  have := t.shorter
  match t.value.kind with
  | .ident name =>
    let sign ← t.next.expect .assign
    have := sign.shorter
    let value ← expression 0 sign.next
    have := value.shorter
    let item : ConstItem := ⟨name, t.value.span, value.value⟩
    match value.next.punct? .comma with
    | some comma =>
      have := comma.shorter
      let more ← constItems comma.next
      let all := more.map fun rest => item :: rest
      return t.andThen (sign.andThen (value.andThen (comma.andThen all)))
    | none => return t.andThen (sign.andThen (value.map fun _ => [item]))
  | _ => unexpected t.value
termination_by c.size

/-- A `const` declaration behind its keyword `start`. -/
def constStatement (start : Span) (c : Cursor) : Parse (Read Stmt c.size) := do
  let items ← constItems c
  let stop ← items.next.terminator items.next.last
  return items.andMaybe (stop.map fun stop => .const (start.through stop) items.value)

/-- Targets up to the closing parenthesis, whose span is yielded as well. Commas between them may
be left out. -/
def unsetTargets (c : Cursor) : Parse (Read (List Target × Span) c.size) :=
  match c.punct? .closeParen with
  | some close => .ok (close.map fun t => ([], t.span))
  | none => do
    let first ← target c
    have := first.shorter
    match first.next.punct? .comma with
    | some comma =>
      have := comma.shorter
      let more ← unsetTargets comma.next
      let all := more.map fun (rest, stop) => (first.value :: rest, stop)
      return first.andThen (comma.andThen all)
    | none =>
      -- No comma: the next target follows at once.
      let more ← unsetTargets first.next
      return first.andThen (more.map fun (rest, stop) => (first.value :: rest, stop))
termination_by c.size

/-- An `unset` statement behind its keyword `start`. -/
def unsetStatement (start : Span) (c : Cursor) : Parse (Read Stmt c.size) := do
  let paren ← c.expect .openParen
  let targets ← unsetTargets paren.next
  let stop ← targets.next.terminator targets.value.2
  let whole := paren.andThen (targets.andMaybe stop)
  return whole.map fun stop => .unset (start.through stop) targets.value.1

/-- The variables that a `global` statement names. -/
def globalNames (c : Cursor) : Parse (Read (List String) c.size) := do
  let t ← c.advance
  have := t.shorter
  match t.value.kind with
  | .var name =>
    match t.next.punct? .comma with
    | some comma =>
      have := comma.shorter
      let more ← globalNames comma.next
      return t.andThen (comma.andThen (more.map fun rest => name :: rest))
    | none => return t.map fun _ => [name]
  | _ => unexpected t.value
termination_by c.size

/-- A `global` statement behind its keyword `start`. -/
def globalStatement (start : Span) (c : Cursor) : Parse (Read Stmt c.size) := do
  let names ← globalNames c
  let stop ← names.next.terminator names.next.last
  return names.andMaybe (stop.map fun stop => .global (start.through stop) names.value)

/-- Whether a statement ends here: in front of a semicolon, a closing tag or nothing. -/
def atStatementEnd (c : Cursor) : Bool :=
  c.current?.all fun t => t.isPunct .semicolon || t.kind == .closeTag

/-- What follows `return` or `exit`, of which `start` is the span: perhaps an expression. -/
def endingStatement (start : Span) (stmt : Span → Stmt) (c : Cursor) :
    Parse (Peeked Stmt c.size) :=
  if atStatementEnd c then do
    let stop ← c.terminator start
    return stop.map fun stop => stmt (start.through stop)
  else do
    let e ← expression 0 c
    let stop ← e.next.terminator e.next.last
    return (e.andMaybe (stop.map fun stop => stmt (start.through stop))).peeked

/-- A statement that begins with `word`, unless it is a conditional one or an expression. -/
def wordStatement? (word : String) (t : Token) (c : Cursor) :
    Option (Parse (Peeked Stmt c.size)) :=
  let wide (x : Parse (Read Stmt c.size)) : Parse (Peeked Stmt c.size) := x.map Read.peeked
  match includeKind? word with
  | some kind => some (wide (loadStatement t.span kind c))
  | none =>
    if word == "const" then some (wide (constStatement t.span c))
    else if word == "unset" then some (wide (unsetStatement t.span c))
    else if word == "global" then some (wide (globalStatement t.span c))
    else if word == "return" then some (endingStatement t.span .ret c)
    else if word == "exit" || word == "die" then some (endingStatement t.span .exit c)
    else if isUnsupportedStatement word then some (unsupported t .statement)
    else none

/-! ### Skipping -/

/-- Whether the token is an opening bracket. -/
def opensBracket (t : Token) : Bool :=
  t.isPunct .openParen || t.isPunct .openBracket || t.isPunct .openBrace

/-- Whether the token is a closing bracket; closing brackets need not be of the kind that was
opened. -/
def closesBracket (t : Token) : Bool :=
  t.isPunct .closeParen || t.isPunct .closeBracket || t.isPunct .closeBrace

/-- Whether the statement goes on behind the brace that was just closed. -/
def continuesBlock (c : Cursor) : Bool :=
  c.current?.any fun t => ["else", "elseif", "catch", "finally", "while"].any t.isKeyword

/-- Skip the rest of a statement, in which the brackets `opened` are open, the innermost first. -/
def skipRest (opened : List Token) (c : Cursor) : Parse (Peeked Unit c.size) :=
  match c.advance with
  | .error e => if opened.isEmpty then .ok (c.stay ()) else .error e
  | .ok t =>
    have := t.shorter
    let stop : Peeked Unit c.size := (t.map fun _ => ()).peeked
    let go (opened : List Token) : Parse (Peeked Unit c.size) :=
      (skipRest opened t.next).map fun rest => (t.andMaybe rest).peeked
    if opensBracket t.value then go (t.value :: opened)
    else match opened with
      | [] =>
        -- Outside all brackets a semicolon ends the statement; a closing bracket or tag belongs to
        -- what stands around it.
        if t.value.isPunct .semicolon then .ok stop
        else if closesBracket t.value || t.value.kind == .closeTag then .ok (c.stay ())
        else go []
      | opener :: outer =>
        if !closesBracket t.value then go opened
        -- The end of a block ends the statement, unless a word follows that goes on with it.
        else if outer.isEmpty && opener.isPunct .openBrace && !continuesBlock t.next then .ok stop
        else go outer
termination_by c.size

/-- Skip a statement. -/
def opaqueStatement (c : Cursor) : Parse (Read Stmt c.size) := do
  let t ← c.advance
  if closesBracket t.value then unexpected t.value
  else
    let rest ← skipRest (if opensBracket t.value then [t.value] else []) t.next
    let whole := t.andMaybe rest
    return whole.map fun _ => .opaqueStmt (t.value.span.through whole.next.last)

/-! ### Statements with others inside -/

/-- What follows the conditions of a conditional: more of them, the statements that run if none
holds, and the span that ends it. -/
structure Alternatives where
  branches : List Branch
  otherwise : Option (List Stmt)
  stop : Span

/-- One more branch in front. -/
def Alternatives.addBranch (b : Branch) (more : Alternatives) : Alternatives :=
  { more with branches := b :: more.branches }

mutual

/-- The next statement; `none` for a tag or an empty statement. -/
def statement (c : Cursor) : Parse (Read (Option Stmt) c.size) := do
  let t ← c.advance
  have := t.shorter
  match t.value.kind with
  | .openTag | .closeTag | .punct .semicolon => return t.map fun _ => none
  | .inlineHtml => return t.map fun t => some (.inlineHtml t.span)
  | .punct .openBrace =>
    let body ← block t.next
    return t.andThen (body.map fun (ss, stop) => some (.block (t.value.span.through stop) ss))
  | .punct .closeBrace => unexpected t.value
  | _ =>
    match structured c with
    | .ok s => return s.map some
    -- What the grammar does not know is skipped, whatever is wrong with it.
    | .error _ =>
      let skipped ← opaqueStatement c
      return skipped.map some
termination_by 8 * c.size + 2

/-- A statement by its grammar. -/
def structured (c : Cursor) : Parse (Read Stmt c.size) := do
  let t ← c.advance
  have := t.shorter
  match t.value.kind with
  | .ident name =>
    let word := String.ofList (lower name.toList)
    if word == "if" then
      let first ← branch t.next
      have := first.shorter
      let more ← alternatives first.value.2 first.next
      let whole := t.andThen (first.andMaybe more)
      return whole.map fun more =>
        .conditional (t.value.span.through more.stop) (first.value.1 :: more.branches)
          more.otherwise
    else match wordStatement? word t.value t.next with
      | some result => do
        let s ← result
        return t.andMaybe s
      | none => expressionStatement c
  | .var _ => do
    match ← assignment? c with
    | some s => return s
    -- A target without an assignment behind it begins an expression.
    | none => expressionStatement c
  | _ => expressionStatement c
termination_by 8 * c.size + 1

/-- A condition in parentheses and what runs if it holds, with the span that ends it. -/
def branch (c : Cursor) : Parse (Read (Branch × Span) c.size) := do
  let paren ← c.expect .openParen
  have := paren.shorter
  let condition ← expression 0 paren.next
  have := condition.shorter
  let close ← condition.next.expect .closeParen
  have := close.shorter
  if close.next.atPunct .colon then close.next.unsupported .alternativeControlSyntax
  else
    let run ← body close.next
    let whole := paren.andThen (condition.andThen (close.andMaybe run))
    return whole.map fun (ss, stop) => (.mk condition.value ss, stop)
termination_by 8 * c.size

/-- What follows a branch, which ends with `stop`. -/
def alternatives (stop : Span) (c : Cursor) : Parse (Peeked Alternatives c.size) :=
  match c.keyword? "elseif" with
  | some word => do
    have := word.shorter
    let next ← branch word.next
    have := next.shorter
    let more ← alternatives next.value.2 next.next
    return (word.andThen (next.andMaybe (more.map (·.addBranch next.value.1)))).peeked
  | none =>
    match c.keyword? "else" with
    | none => .ok (c.stay ⟨[], none, stop⟩)
    | some word =>
      have := word.shorter
      match word.next.keyword? "if" with
      | some again => do
        have := again.shorter
        let next ← branch again.next
        have := next.shorter
        let more ← alternatives next.value.2 next.next
        let whole := next.andMaybe (more.map (·.addBranch next.value.1))
        return (word.andThen (again.andThen whole)).peeked
      | none => do
        let run ← body word.next
        return (word.andMaybe (run.map fun (ss, stop) => ⟨[], some ss, stop⟩)).peeked
termination_by 8 * c.size

/-- Statements in braces or a single statement, with the span that ends them. -/
def body (c : Cursor) : Parse (Peeked (List Stmt × Span) c.size) :=
  match c.punct? .openBrace with
  | some brace => do
    have := brace.shorter
    let run ← block brace.next
    return (brace.andThen run).peeked
  | none =>
    if c.rest.isEmpty then .ok (c.stay ([], c.last))
    else do
      let s ← statement c
      return (s.map fun stmt => (stmt.toList, s.next.last)).peeked
termination_by 8 * c.size + 3

/-- Statements up to the closing brace, whose span is yielded as well. -/
def block (c : Cursor) : Parse (Read (List Stmt × Span) c.size) :=
  match c.punct? .closeBrace with
  | some close => .ok (close.map fun t => ([], t.span))
  | none => do
    let s ← statement c
    have := s.shorter
    let more ← block s.next
    return s.andThen (more.map fun (rest, stop) => (s.value.toList ++ rest, stop))
termination_by 8 * c.size + 3

end

/-- All statements ahead. -/
def statements (c : Cursor) : Parse (List Stmt) :=
  if c.rest.isEmpty then .ok []
  else do
    let s ← statement c
    have := s.shorter
    let more ← statements s.next
    return s.value.toList ++ more
termination_by c.size

end ConfigScript.Script
