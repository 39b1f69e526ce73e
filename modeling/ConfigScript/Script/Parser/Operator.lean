import ConfigScript.Script.Syntax

/-!
# Operators and their precedence

Binary operators have levels from 1 (binds least) to 19; an operator of the same level groups to the
left unless it is right associative. The conditional operator has a level of its own among them.
Prefix operators and casts bind tighter than every binary operator but the power.

Binding is compared on a doubled scale, so that between two levels there is room for "tighter than
this level".
-/

namespace ConfigScript.Script

/-- A binary operator with its precedence. -/
structure Operator where
  op : BinaryOp
  level : Nat
  rightAssoc : Bool
deriving DecidableEq, Repr

/-- How tightly the operator holds its left operand. -/
def Operator.leftBinding (o : Operator) : Nat := 2 * o.level

/-- How tightly its right operand must be bound. -/
def Operator.rightBinding (o : Operator) : Nat :=
  if o.rightAssoc then 2 * o.level else 2 * o.level + 1

/-- How tightly the conditional operator holds its condition. -/
def ternaryBinding : Nat := 10

/-- How tightly the operand of a prefix operator must be bound. -/
def prefixBinding : Nat := 36

/-- The binary operator that a punctuation token is. -/
def punctOperator? : Punct → Option Operator
  | .coalesce => some ⟨.coalesce, 6, true⟩
  | .orOr => some ⟨.or, 7, false⟩
  | .andAnd => some ⟨.and, 8, false⟩
  | .pipe => some ⟨.bitOr, 9, false⟩
  | .caret => some ⟨.bitXor, 10, false⟩
  | .ampersand => some ⟨.bitAnd, 11, false⟩
  | .equal => some ⟨.eq, 12, false⟩
  | .notEqual | .lessGreater => some ⟨.notEq, 12, false⟩
  | .identical => some ⟨.identical, 12, false⟩
  | .notIdentical => some ⟨.notIdentical, 12, false⟩
  | .spaceship => some ⟨.spaceship, 12, false⟩
  | .less => some ⟨.lt, 13, false⟩
  | .greater => some ⟨.gt, 13, false⟩
  | .lessEqual => some ⟨.ltEq, 13, false⟩
  | .greaterEqual => some ⟨.gtEq, 13, false⟩
  | .dot => some ⟨.concat, 14, false⟩
  | .shiftLeft => some ⟨.shiftLeft, 15, false⟩
  | .shiftRight => some ⟨.shiftRight, 15, false⟩
  | .plus => some ⟨.add, 16, false⟩
  | .minus => some ⟨.sub, 16, false⟩
  | .times => some ⟨.mul, 17, false⟩
  | .divide => some ⟨.div, 17, false⟩
  | .percent => some ⟨.mod, 17, false⟩
  | .pow => some ⟨.pow, 19, true⟩
  | _ => none

/-- The binary operator that a word is, in lower case. -/
def wordOperator? (word : String) : Option Operator :=
  match word with
  | "or" => some ⟨.or, 1, false⟩
  | "xor" => some ⟨.xor, 2, false⟩
  | "and" => some ⟨.and, 3, false⟩
  | _ => none

/-- The binary operator that a token is. -/
def operator? (t : Token) : Option Operator :=
  match t.kind with
  | .punct p => punctOperator? p
  | _ => t.keyword?.bind wordOperator?

/-- The prefix operator that a token is. -/
def prefixOperator? (t : Token) : Option UnaryOp :=
  match t.kind with
  | .punct .bang => some .not
  | .punct .minus => some .neg
  | .punct .plus => some .plus
  | .punct .tilde => some .bitNot
  | .punct .silence => some .silence
  | _ => none

/-- Prefix tokens of references and increments, which are not supported. -/
def isReferenceMark (t : Token) : Bool :=
  t.isPunct .ampersand || t.isPunct .increment || t.isPunct .decrement

/-- The cast that a word between parentheses means. -/
def castKind? (t : Token) : Option CastKind :=
  match t.keyword? with
  | some "int" | some "integer" => some .int
  | some "float" | some "double" => some .float
  | some "string" => some .string
  | some "bool" | some "boolean" => some .bool
  | some "array" => some .array
  | _ => none

/-- Words that begin an expression which is not supported. -/
def isUnsupportedWord (word : String) : Bool :=
  ["function", "fn", "static", "match", "list", "include", "include_once", "require",
    "require_once", "clone", "yield", "throw", "print"].contains word

/-- The literal or magic constant that a word is; the literals only where no call follows. -/
def wordLiteral? (word : String) (beforeCall : Bool) (s : Span) : Option Expr :=
  match word, beforeCall with
  | "true", false => some (.bool s true)
  | "false", false => some (.bool s false)
  | "null", false => some (.null s)
  | "__dir__", _ => some (.magic s .dir)
  | "__file__", _ => some (.magic s .file)
  | "__line__", _ => some (.magic s .line)
  | _, _ => none

end ConfigScript.Script
