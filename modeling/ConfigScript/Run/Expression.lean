import ConfigScript.Builtin
import ConfigScript.Value.Element

/-!
# The meaning of expressions

An expression means two things: a value, and an answer to the question whether it is set, which
`isset` asks. Both may define constants on the way. The meaning is made from the meanings of the
parts, so it is defined by recursion on the expression alone.

What cannot be evaluated has its own source text as its value. An operand without a known value
makes the whole expression unknown.
-/

namespace ConfigScript

/-- The script that is running. -/
structure Frame where
  environment : Environment
  source : List Char
  file : Path

namespace Frame

/-- The directory that relative paths start from. -/
def directory (f : Frame) : Path := f.file.parent?.getD (.ofString ".")

/-- The value of source text that cannot be evaluated. -/
def unknown (f : Frame) (s : Span) : Value := .expression (String.ofList (s.text f.source))

end Frame

/-- What an expression means. -/
structure Meaning where
  value : StateM Scope Value
  /-- Whether the expression is set; `none` if that depends on an unknown value. -/
  isSet : StateM Scope (Option Bool)

namespace Meaning

/-- The meaning of an expression that is set if its value is not `null`. -/
def ofValue (value : StateM Scope Value) : Meaning where
  value := value
  isSet := do
    let v ← value
    return if v.isOpaque then none else some (!v.isNull)

/-- An expression with a fixed value. -/
def fixed (v : Value) : Meaning := ofValue (return v)

/-- The values of several expressions, from left to right. -/
def values : List Meaning → StateM Scope (List Value)
  | [] => return []
  | m :: ms => do
    let v ← m.value
    let vs ← values ms
    return v :: vs

/-- Whether all of several expressions are set. All are looked at, up to the first unknown one. -/
def allSet : List Meaning → StateM Scope (Option Bool)
  | [] => return some true
  | m :: ms => do
    match ← m.isSet with
    | none => return none
    | some b => return (← allSet ms).map (b && ·)

/-! ### Parts of expressions -/

/-- A variable. -/
def ofVariable (name : String) : Meaning where
  value := do return ((← get).var? name).getD .null
  isSet := do
    match (← get).var? name with
    | none | some .null => return some false
    | some (.expression _) => return none
    | some _ => return some true

/-- The text of the parts of a literal; `none` if one of its variables is unknown. -/
def interpolate (scope : Scope) : List Part → Option String
  | [] => some ""
  | .text s :: ps => (interpolate scope ps).map (s ++ ·)
  | .var n :: ps =>
    match scope.var? n with
    | some (.expression _) => none
    | some v => (interpolate scope ps).map (v.toText ++ ·)
    | none => interpolate scope ps

/-- An element of `base`. -/
def index (unknown : Value) (base i : Meaning) : Meaning where
  value := do
    let b ← base.value
    let k ← i.value
    return (Value.index? b k).getD unknown
  isSet := do
    match ← base.isSet with
    | none => return none
    | some false => return some false
    | some true =>
      let b ← base.value
      let k ← i.value
      if k.isOpaque then return none
      else return (Value.index? b k).map fun v => !v.isNull

/-- The elements of an array literal, added to those in `done`; `none` if one is unknown. -/
def elements (done : List (Key × Value)) :
    List (Option Meaning × Meaning) → StateM Scope (Option (List (Key × Value)))
  | [] => return some done
  | (key, value) :: rest => do
    let key? ← match key with
      | none => pure (some (Key.int (Value.nextIndex done)))
      | some k => do
        let v ← k.value
        pure v.key?
    match key? with
    | none => return none
    | some k =>
      let v ← value.value
      if v.isOpaque then return none else elements (Assoc.insert k v done) rest

/-- Apply a function to a known value. -/
def apply (unknown : Value) (f : Value → Option Value) (m : Meaning) : StateM Scope Value := do
  let v ← m.value
  return if v.isOpaque then unknown else (f v).getD unknown

/-- What the left operand alone decides. -/
def shortcut? (op : BinaryOp) (left : Value) : Option Value :=
  match op with
  | .and => if left.isTruthy then none else some (.bool false)
  | .or => if left.isTruthy then some (.bool true) else none
  | .coalesce => if left.isNull then none else some left
  | _ => none

/-- A binary operator. -/
def binary (unknown : Value) (op : BinaryOp) (lhs rhs : Meaning) : StateM Scope Value := do
  let left ← lhs.value
  if left.isOpaque then return unknown
  else match shortcut? op left with
    | some v => return v
    | none =>
      let right ← rhs.value
      return if right.isOpaque then unknown else (Value.binary? op left right).getD unknown

/-- A conditional; without `thenBranch` it yields its condition. -/
def conditional (unknown : Value) (condition : Meaning) (thenBranch : Option Meaning)
    (elseBranch : Meaning) : StateM Scope Value := do
  let c ← condition.value
  if c.isOpaque then return unknown
  else
    let chosen ← if c.isTruthy then match thenBranch with
        | some t => t.value
        | none => pure c
      else elseBranch.value
    return if chosen.isOpaque then unknown else chosen

/-! ### Calls -/

/-- Define a constant. The name must be known and no array; the value may be unknown. -/
def define : List Meaning → StateM Scope (Option Value)
  | name :: value :: _ => do
    match ← name.value with
    | .expression _ | .array _ => return none
    | n =>
      let v ← value.value
      let fresh ← modifyGet fun s => s.define n.toText v
      return some (.bool fresh)
  | _ => return none

/-- Whether a single expression is not set or not true. -/
def isEmpty : List Meaning → StateM Scope (Option Value)
  | [m] => do
    match ← m.isSet with
    | none => return none
    | some false => return some (.bool true)
    | some true =>
      let v ← m.value
      return if v.isOpaque then none else some (.bool (!v.isTruthy))
  | _ => return none

/-- Call a function on known values. -/
def callBuiltin (env : Environment) (name : String) (args : List Meaning) :
    StateM Scope (Option Value) := do
  let vs ← values args
  if vs.any Value.isOpaque then return none else return Builtin.call env (← get) name vs

/-- A call of the function `name`, which is given in lower case. -/
def call (env : Environment) (name : String) (args : List Meaning) :
    StateM Scope (Option Value) :=
  match name with
  | "define" => define args
  | "isset" => do return (← allSet args).map fun b => .bool (!args.isEmpty && b)
  | "empty" => isEmpty args
  | name => callBuiltin env name args

end Meaning

/-! ### The meaning of a syntax tree -/

namespace Frame

/-- The value of a constant that depends on the place in the source. -/
def magic (f : Frame) (s : Span) : MagicConstant → Value
  | .dir => .string f.directory.toString
  | .file => .string f.file.toString
  | .line => .int (Int64.ofNat s.line)

mutual

/-- What an expression means. -/
def meaning (f : Frame) : Expr → Meaning
  | .null _ => .fixed .null
  | .bool _ b => .fixed (.bool b)
  | .int _ i => .fixed (.int i)
  | .float _ x => .fixed (.float x)
  | .str s parts => .ofValue do
    return ((Meaning.interpolate (← get) parts).map Value.string).getD (f.unknown s)
  | .const s name => .ofValue do return ((← get).constant? name).getD (f.unknown s)
  | .magic s kind => .fixed (f.magic s kind)
  | .var _ name => .ofVariable name
  | .array s items => .ofValue do
    return ((← Meaning.elements [] (itemMeanings f items)).map Value.array).getD (f.unknown s)
  | .index s base i => .index (f.unknown s) (meaning f base) (meaning f i)
  | .call s name args => .ofValue do
    let word := String.ofList (Script.lower name.toList)
    return (← Meaning.call f.environment word (meanings f args)).getD (f.unknown s)
  | .cast s kind e =>
    .ofValue (Meaning.apply (f.unknown s) (fun v => some (v.castTo kind)) (meaning f e))
  | .unary s op e => .ofValue (Meaning.apply (f.unknown s) (Value.unary? op) (meaning f e))
  | .binary s op lhs rhs =>
    .ofValue (Meaning.binary (f.unknown s) op (meaning f lhs) (meaning f rhs))
  | .ternary s c t e =>
    .ofValue
      (Meaning.conditional (f.unknown s) (meaning f c) (some (meaning f t)) (meaning f e))
  | .elvis s c e => .ofValue (Meaning.conditional (f.unknown s) (meaning f c) none (meaning f e))
  | .opaqueExpr s => .fixed (f.unknown s)

/-- What each of several expressions means. -/
def meanings (f : Frame) : List Expr → List Meaning
  | [] => []
  | e :: es => meaning f e :: meanings f es

/-- What keys and values of an array literal mean. -/
def itemMeanings (f : Frame) : List Item → List (Option Meaning × Meaning)
  | [] => []
  | .value e :: items => (none, meaning f e) :: itemMeanings f items
  | .keyed k e :: items => (some (meaning f k), meaning f e) :: itemMeanings f items

end

/-- The value of an expression. -/
def eval (f : Frame) (e : Expr) : StateM Scope Value := (f.meaning e).value

end Frame

end ConfigScript
