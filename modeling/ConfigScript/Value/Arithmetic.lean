import ConfigScript.Script.Syntax
import ConfigScript.Value.Comparison

/-!
# Operators on values

What operators and casts yield for values that are known; `none` where the script would stop with an
error. Integer arithmetic is exact: a result that is no machine integer is computed in doubles
instead.
-/

namespace ConfigScript.Value

/-- The operations with numbers on both sides. -/
inductive ArithmeticOp where
  | add
  | sub
  | mul
  | div
  | pow
deriving DecidableEq, Repr

/-- Exponents and numbers of places are less than this. -/
def maxCount : Int := 0x100000000

/-- The exact result in integers, if there is one. -/
def integral? (op : ArithmeticOp) (a b : Int64) : Option Int64 :=
  match op with
  | .add => Integer.fit? (a.toInt + b.toInt)
  | .sub => Integer.fit? (a.toInt - b.toInt)
  | .mul => Integer.fit? (a.toInt * b.toInt)
  | .div => if b ≠ 0 ∧ a.toInt % b.toInt = 0 then Integer.fit? (a.toInt / b.toInt) else none
  | .pow => if 0 ≤ b ∧ b.toInt < maxCount then Integer.pow? a b.toInt.toNat else none

/-- The result in doubles; there is no quotient by zero. -/
def approximate? (op : ArithmeticOp) (x y : Float) : Option Float :=
  match op with
  | .add => some (x + y)
  | .sub => some (x - y)
  | .mul => some (x * y)
  | .div => if y == 0 then none else some (x / y)
  | .pow => some (Float.pow x y)

/-- An operation on numbers: exact in integers if possible, else in doubles. -/
def arithmetic? (op : ArithmeticOp) (a b : Numeric) : Option Value :=
  let inFloats := (approximate? op a.toFloat b.toFloat).map float
  match a, b with
  | .int i, .int j =>
    match integral? op i j with
    | some k => some (int k)
    | none => inFloats
  | _, _ => inFloats

/-- An operation on values as numbers. -/
def arithmeticOf? (op : ArithmeticOp) (left right : Value) : Option Value :=
  left.numeric?.bind fun a => right.numeric?.bind fun b => arithmetic? op a b

/-- The elements of `a`, and those of `b` whose key is new. -/
def union (a b : List (Key × Value)) : List (Key × Value) :=
  b.foldl (fun all (k, v) =>
    if all.any fun (l, _) => identicalKeys l k then all else all ++ [(k, v)]) a

/-- The remainder with the sign of the dividend. -/
def remainder? (left right : Value) : Option Value :=
  if left.numeric?.isNone || right.numeric?.isNone then none
  else
    let divisor := right.toInt
    if divisor = 0 then none else some (int (Int64.ofInt (left.toInt.toInt.tmod divisor.toInt)))

/-- An operation on the bits of integers. -/
def bitwise? (f : Int64 → Int64 → Int64) (left right : Value) : Option Value :=
  if left.numeric?.isNone || right.numeric?.isNone then none
  else some (int (f left.toInt right.toInt))

/-- Shift left by less than 2^32 places; from 64 places on nothing is left. -/
def shiftLeft (a : Int64) (places : Nat) : Int64 :=
  if places < 64 then a <<< Int64.ofNat places else 0

/-- Shift right by less than 2^32 places, which keeps the sign. -/
def shiftRight (a : Int64) (places : Nat) : Int64 :=
  if places < 64 then a >>> Int64.ofNat places else if a < 0 then -1 else 0

/-- A shift; the number of places must not be negative. -/
def shift? (f : Int64 → Nat → Int64) (left right : Value) : Option Value :=
  if left.numeric?.isNone || right.numeric?.isNone then none
  else
    let places := right.toInt.toInt
    if 0 ≤ places ∧ places < maxCount then some (int (f left.toInt places.toNat)) else none

/-- What a binary operator yields. -/
def binary? (op : BinaryOp) (left right : Value) : Option Value :=
  match op with
  | .concat => some (string (left.toText ++ right.toText))
  | .and => some (bool (left.isTruthy && right.isTruthy))
  | .or => some (bool (left.isTruthy || right.isTruthy))
  | .xor => some (bool (left.isTruthy != right.isTruthy))
  | .coalesce => some (if left.isNull then right else left)
  | .eq => some (bool (looselyEqual left right))
  | .notEq => some (bool (!looselyEqual left right))
  | .identical => some (bool (identical left right))
  | .notIdentical => some (bool (!identical left right))
  | .lt => (compare? left right).map fun o => bool (o == .lt)
  | .gt => (compare? left right).map fun o => bool (o == .gt)
  | .ltEq => (compare? left right).map fun o => bool (o != .gt)
  | .gtEq => (compare? left right).map fun o => bool (o != .lt)
  | .spaceship => (compare? left right).map fun o => match o with
    | .lt => int (-1)
    | .eq => int 0
    | .gt => int 1
  | .add =>
    match left, right with
    | array a, array b => some (array (union a b))
    | a, b => arithmeticOf? .add a b
  | .sub => arithmeticOf? .sub left right
  | .mul => arithmeticOf? .mul left right
  | .div => arithmeticOf? .div left right
  | .pow => arithmeticOf? .pow left right
  | .mod => remainder? left right
  | .bitAnd => bitwise? (· &&& ·) left right
  | .bitOr => bitwise? (· ||| ·) left right
  | .bitXor => bitwise? (· ^^^ ·) left right
  | .shiftLeft => shift? shiftLeft left right
  | .shiftRight => shift? shiftRight left right

/-- The negative of a number. -/
def negate : Numeric → Value
  | .int i =>
    match Integer.fit? (-i.toInt) with
    | some k => int k
    | none => float (-(Number.ofInt i.toInt))
  | .float x => float (-x)

/-- What a prefix operator yields. -/
def unary? (op : UnaryOp) (v : Value) : Option Value :=
  match op with
  | .not => some (bool (!v.isTruthy))
  | .silence => some v
  | .plus => v.numeric?.map Numeric.toValue
  | .neg => v.numeric?.map negate
  | .bitNot =>
    match v with
    | int _ | float _ => some (int (~~~v.toInt))
    | _ => none

/-- What a cast yields. -/
def castTo (kind : CastKind) (v : Value) : Value :=
  match kind with
  | .int => int v.toInt
  | .float => float ((v.numeric?.map Numeric.toFloat).getD 1)
  | .string => string v.toText
  | .bool => bool v.isTruthy
  | .array =>
    match v with
    | array _ => v
    | null => array []
    | other => array [(.int 0, other)]

end ConfigScript.Value
