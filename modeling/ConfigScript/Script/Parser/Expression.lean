import ConfigScript.Script.Parser.Cursor
import ConfigScript.Script.Parser.Operator

/-!
# Parsing expressions

An expression is read by precedence: an operand with its prefix operators, then operators that bind
at least as tightly as asked for, each with its right operand. Operands may be followed by indices,
member accesses and calls. Object and class access, and calls of anything but a named function, are
read and kept as opaque expressions.

The functions call each other in a fixed order on the same tokens, or on fewer tokens; the measure
counts both.
-/

namespace ConfigScript.Script

/-- Whether the token may name a member of an object or class. -/
def isMemberName (t : Token) : Bool :=
  match t.kind with
  | .ident _ | .var _ => true
  | _ => false

/-- The cast that begins here: a word between parentheses. -/
def cast? (c : Cursor) : Option (Read CastKind c.size) :=
  match h : c.rest with
  | t :: w :: close :: ts =>
    if t.isPunct .openParen && close.isPunct .closeParen then
      (castKind? w).map fun kind =>
        ⟨kind, ⟨close.span, ts⟩, by simp only [Cursor.size, h, List.length_cons]; omega⟩
    else none
  | _ => none

/-- What stands alone as an operand: the token's expression. -/
def literal? (t : Token) : Option Expr :=
  match t.kind with
  | .int v => some (.int t.span v)
  | .float v => some (.float t.span v)
  | .str ps => some (.str t.span ps)
  | .var n => some (.var t.span n)
  | _ => none

/-- The binary operator ahead that binds at least as tightly as `min`. -/
def binary? (min : Nat) (c : Cursor) : Option (Read Operator c.size) :=
  match h : c.rest with
  | [] => none
  | t :: ts =>
    match operator? t with
    | some o =>
      if o.leftBinding < min then none
      else some ⟨o, ⟨t.span, ts⟩, by simp [Cursor.size, h]⟩
    | none => none

mutual

/-- An expression whose operators bind at least as tightly as `min`. -/
def expression (min : Nat) (c : Cursor) : Parse (Read Expr c.size) := do
  let operand ← unary c
  have := operand.shorter
  let whole ← operators min operand.value operand.next
  return operand.andMaybe whole
termination_by 8 * c.size + 5

/-- Go on with the operators behind the expression `lhs`. -/
def operators (min : Nat) (lhs : Expr) (c : Cursor) : Parse (Peeked Expr c.size) :=
  match c.punct? .question with
  | some question =>
    have := question.shorter
    -- A conditional is left to the operator around it if that binds more tightly.
    if ternaryBinding < min then .ok (c.stay lhs)
    else match question.next.punct? .colon with
      | some colon => do
        have := colon.shorter
        let other ← expression (ternaryBinding + 1) colon.next
        have := other.shorter
        let span := lhs.span.through other.value.span
        let whole ← operators min (.elvis span lhs other.value) other.next
        return (question.andThen (colon.andThen (other.andMaybe whole))).peeked
      | none => do
        -- Between its two marks a conditional holds any expression.
        let chosen ← expression 0 question.next
        have := chosen.shorter
        let colon ← chosen.next.expect .colon
        have := colon.shorter
        let other ← expression (ternaryBinding + 1) colon.next
        have := other.shorter
        let span := lhs.span.through other.value.span
        let whole ← operators min (.ternary span lhs chosen.value other.value) other.next
        return (question.andThen (chosen.andThen (colon.andThen (other.andMaybe whole)))).peeked
  | none =>
    match binary? min c with
    | none => .ok (c.stay lhs)
    | some o => do
      have := o.shorter
      let rhs ← expression o.value.rightBinding o.next
      have := rhs.shorter
      let span := lhs.span.through rhs.value.span
      let whole ← operators min (.binary span o.value.op lhs rhs.value) rhs.next
      return (o.andThen (rhs.andMaybe whole)).peeked
termination_by 8 * c.size + 1

/-- An operand with its prefix operators and casts. -/
def unary (c : Cursor) : Parse (Read Expr c.size) := do
  let t ← c.advance
  have := t.shorter
  match prefixOperator? t.value with
  | some op =>
    let operand ← expression prefixBinding t.next
    let span := t.value.span.through operand.value.span
    return t.andThen (operand.map (.unary span op))
  | none =>
    if isReferenceMark t.value then unsupported t.value .referencesAndIncrements
    else match cast? c with
      | some kind =>
        have := kind.shorter
        let operand ← expression prefixBinding kind.next
        let span := t.value.span.through operand.value.span
        return kind.andThen (operand.map (.cast span kind.value))
      | none =>
        let base ← primary c
        have := base.shorter
        let whole ← suffixes base.value base.next
        return base.andMaybe whole
termination_by 8 * c.size + 4

/-- An operand without anything before or behind it. -/
def primary (c : Cursor) : Parse (Read Expr c.size) := do
  let t ← c.advance
  have := t.shorter
  let span := t.value.span
  match literal? t.value, t.value.kind with
  | some e, _ => return t.map fun _ => e
  | none, .punct .openParen =>
    let inner ← expression 0 t.next
    have := inner.shorter
    let close ← inner.next.expect .closeParen
    let whole := inner.andThen close
    return t.andThen (whole.map fun stop => inner.value.withSpan (span.through stop))
  | none, .punct .openBracket =>
    let list ← items .closeBracket t.next
    return t.andThen (list.map fun (es, stop) => .array (span.through stop) es)
  | none, .ident name =>
    let whole ← named name t.value t.next
    return t.andMaybe whole
  | none, _ => Script.unexpected t.value
termination_by 8 * c.size + 3

/-- Go on with an expression that begins with the name `name`, which is the token `t`. -/
def named (name : String) (t : Token) (c : Cursor) : Parse (Peeked Expr c.size) :=
  let word := String.ofList (lower name.toList)
  match wordLiteral? word (c.atPunct .openParen) t.span with
  | some e => .ok (c.stay e)
  | none =>
    if word == "new" then creation t.span c
    else if isUnsupportedWord word then unsupported t .expression
    else match c.punct? .openParen with
      | some paren => do
        have := paren.shorter
        if word == "array" then
          let list ← items .closeParen paren.next
          return (paren.andThen (list.map fun (es, stop) => .array (t.span.through stop) es)).peeked
        else
          let args ← arguments paren.next
          let call := args.map fun (es, stop) => Expr.call (t.span.through stop) name es
          return (paren.andThen call).peeked
      | none =>
        match c.punct? .doubleColon with
        | some colons => do
          have := colons.shorter
          let whole ← member t.span colons.next
          return (colons.andThen whole).peeked
        | none => .ok (c.stay (.const t.span name))
termination_by 8 * c.size + 2

/-- The creation of an object, given what follows `new`. -/
def creation (start : Span) (c : Cursor) : Parse (Peeked Expr c.size) := do
  let t ← c.advance
  have := t.shorter
  if isMemberName t.value then
    let stop ← callSuffix t.value.span t.next
    return (t.andMaybe (stop.map fun stop => .opaqueExpr (start.through stop))).peeked
  else unsupported t.value .expression
termination_by 8 * c.size + 1

/-- A member of a class, given what follows the double colon; `start` is where its owner begins. -/
def member (start : Span) (c : Cursor) : Parse (Read Expr c.size) := do
  let t ← c.advance
  have := t.shorter
  if isMemberName t.value then
    let stop ← callSuffix t.value.span t.next
    return t.andMaybe (stop.map fun stop => .opaqueExpr (start.through stop))
  else Script.unexpected t.value
termination_by 8 * c.size + 1

/-- Arguments in parentheses, if they follow: the span that everything up to there ends with, which
is `last` when nothing follows. -/
def callSuffix (last : Span) (c : Cursor) : Parse (Peeked Span c.size) :=
  match c.punct? .openParen with
  | some paren => do
    have := paren.shorter
    let args ← arguments paren.next
    return (paren.andThen (args.map (·.2))).peeked
  | none => .ok (c.stay last)
termination_by 8 * c.size

/-- Go on with indices, member accesses and calls behind the operand `e`. -/
def suffixes (e : Expr) (c : Cursor) : Parse (Peeked Expr c.size) :=
  match c.advance with
  | .error _ => .ok (c.stay e)
  | .ok t =>
    have := t.shorter
    match t.value.kind with
    | .punct .openBracket =>
      if t.next.atPunct .closeBracket then unsupported t.value .emptyIndex
      else do
        let i ← expression 0 t.next
        have := i.shorter
        let close ← i.next.expect .closeBracket
        have := close.shorter
        let whole ← suffixes (.index (e.span.through close.value) e i.value) close.next
        return (t.andThen (i.andThen (close.andMaybe whole))).peeked
    | .punct .arrow | .punct .nullsafeArrow => do
      let m ← t.next.advance
      have := m.shorter
      if isMemberName m.value then
        let stop ← callSuffix m.value.span m.next
        have := stop.shorter
        let whole ← suffixes (.opaqueExpr (e.span.through stop.value)) stop.next
        return (t.andThen ((m.andMaybe stop).andMaybe whole)).peeked
      else unsupported m.value .dynamicMemberAccess
    | .punct .doubleColon => do
      let m ← member e.span t.next
      have := m.shorter
      let whole ← suffixes m.value m.next
      return (t.andThen (m.andMaybe whole)).peeked
    | .punct .openParen => do
      let args ← arguments t.next
      have := args.shorter
      let whole ← suffixes (.opaqueExpr (e.span.through args.value.2)) args.next
      return (t.andThen (args.andMaybe whole)).peeked
    | .punct .increment | .punct .decrement => unsupported t.value .referencesAndIncrements
    | _ => .ok (c.stay e)
termination_by 8 * c.size

/-- Arguments of a call behind the opening parenthesis, and the span of the closing one. -/
def arguments (c : Cursor) : Parse (Read (List Expr × Span) c.size) :=
  match c.punct? .closeParen with
  | some close => .ok (close.map fun t => ([], t.span))
  | none => do
    let t ← c.advance
    if t.value.isPunct .ellipsis || t.value.isPunct .ampersand then
      unsupported t.value .argumentUnpacking
    else
      let first ← expression 0 c
      have := first.shorter
      match first.next.punct? .comma with
      | some comma =>
        have := comma.shorter
        let more ← arguments comma.next
        let all := more.map fun (rest, stop) => (first.value :: rest, stop)
        return first.andThen (comma.andThen all)
      | none =>
        match first.next.punct? .closeParen with
        | some close =>
          return first.andThen (close.map fun t => ([first.value], t.span))
        | none => first.next.unexpected
termination_by 8 * c.size + 6

/-- Elements of an array literal behind the opening bracket, and the span of the closing one. -/
def items (closing : Punct) (c : Cursor) : Parse (Read (List Item × Span) c.size) :=
  match c.punct? closing with
  | some close => .ok (close.map fun t => ([], t.span))
  | none => do
    let t ← c.advance
    if t.value.isPunct .ellipsis || t.value.isPunct .ampersand then
      unsupported t.value .arrayUnpacking
    else
      let first ← item c
      have := first.shorter
      match first.next.punct? .comma with
      | some comma =>
        have := comma.shorter
        let more ← items closing comma.next
        let all := more.map fun (rest, stop) => (first.value :: rest, stop)
        return first.andThen (comma.andThen all)
      | none =>
        match first.next.punct? closing with
        | some close =>
          return first.andThen (close.map fun t => ([first.value], t.span))
        | none => first.next.unexpected
termination_by 8 * c.size + 7

/-- One element of an array literal. -/
def item (c : Cursor) : Parse (Read Item c.size) := do
  let first ← expression 0 c
  have := first.shorter
  match first.next.punct? .doubleArrow with
  | some arrow =>
    have := arrow.shorter
    let value ← expression 0 arrow.next
    return first.andThen (arrow.andThen (value.map (.keyed first.value)))
  | none => return first.map .value
termination_by 8 * c.size + 6

end

end ConfigScript.Script
