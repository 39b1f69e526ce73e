import ConfigScript.Number.Integer
import ConfigScript.Number.Real
import ConfigScript.Number.Shortest

/-!
# Values

What constants and variables hold. An expression that cannot be evaluated is a value, too: it is
kept as its source text.
-/

namespace ConfigScript

mutual

/-- Key of an array element. Scripts give their elements integers and texts as keys; `other` is the
key of an element that only the program around the script can have put there. -/
inductive Key where
  | int (i : Int64)
  | text (s : String)
  | other (v : Value)
deriving Repr, Inhabited

/-- A value of the script language. -/
inductive Value where
  | null
  | bool (b : Bool)
  | int (i : Int64)
  | float (x : Float)
  | string (s : String)
  /-- Elements with their keys, in order. -/
  | array (items : List (Key × Value))
  /-- The source text of an expression that cannot be evaluated. -/
  | expression (source : String)
deriving Repr, Inhabited

end

mutual

/-- Whether two keys are the same. -/
def Key.decEq : (a b : Key) → Decidable (a = b)
  | .int i, .int j => decidable_of_decidable_of_iff (p := i = j) (by simp)
  | .text s, .text t => decidable_of_decidable_of_iff (p := s = t) (by simp)
  | .other v, .other w =>
    have := Value.decEq v w
    decidable_of_decidable_of_iff (p := v = w) (by simp)
  | .int _, .text _ | .int _, .other _ | .text _, .int _ | .text _, .other _ | .other _, .int _
  | .other _, .text _ => isFalse nofun

/-- Whether two values are the same. -/
def Value.decEq : (a b : Value) → Decidable (a = b)
  | .null, w => match w with
    | .null => isTrue rfl
    | .bool _ | .int _ | .float _ | .string _ | .array _ | .expression _ => isFalse nofun
  | .bool a, w => match w with
    | .bool b => decidable_of_decidable_of_iff (p := a = b) (by simp)
    | .null | .int _ | .float _ | .string _ | .array _ | .expression _ => isFalse nofun
  | .int i, w => match w with
    | .int j => decidable_of_decidable_of_iff (p := i = j) (by simp)
    | .null | .bool _ | .float _ | .string _ | .array _ | .expression _ => isFalse nofun
  | .float x, w => match w with
    | .float y => decidable_of_decidable_of_iff (p := x = y) (by simp)
    | .null | .bool _ | .int _ | .string _ | .array _ | .expression _ => isFalse nofun
  | .string s, w => match w with
    | .string t => decidable_of_decidable_of_iff (p := s = t) (by simp)
    | .null | .bool _ | .int _ | .float _ | .array _ | .expression _ => isFalse nofun
  | .array xs, w => match w with
    | .array ys =>
      have := decEqItems xs ys
      decidable_of_decidable_of_iff (p := xs = ys) (by simp)
    | .null | .bool _ | .int _ | .float _ | .string _ | .expression _ => isFalse nofun
  | .expression s, w => match w with
    | .expression t => decidable_of_decidable_of_iff (p := s = t) (by simp)
    | .null | .bool _ | .int _ | .float _ | .string _ | .array _ => isFalse nofun

/-- Whether two lists of elements are the same. -/
def decEqItems : (a b : List (Key × Value)) → Decidable (a = b)
  | [], [] => isTrue rfl
  | [], _ :: _ | _ :: _, [] => isFalse nofun
  | (k, v) :: xs, (l, w) :: ys =>
    have := Key.decEq k l
    have := Value.decEq v w
    have := decEqItems xs ys
    decidable_of_decidable_of_iff (p := (k = l ∧ v = w) ∧ xs = ys) (by simp)

end

instance : DecidableEq Key := Key.decEq

instance : DecidableEq Value := Value.decEq

namespace Value

/-- Whether the value is an expression that cannot be evaluated. -/
def isOpaque : Value → Bool
  | expression _ => true
  | _ => false

/-- Whether the value is `null`. -/
def isNull : Value → Bool
  | null => true
  | _ => false

/-- Whether a condition with this value holds. -/
def isTruthy : Value → Bool
  | null => false
  | bool b => b
  | int i => i != 0
  | float x => x != 0
  | string s => s != "" && s != "0"
  | array items => !items.isEmpty
  | expression _ => false

/-- The name of the value's type. -/
def typeName : Value → String
  | null => "null"
  | bool _ => "bool"
  | int _ => "int"
  | float _ => "float"
  | string _ => "string"
  | array _ => "array"
  | expression _ => "expression"

end Value

/-- Doubles in text: shortest digits, never an exponent. -/
def floatLayout : Number.Layout where
  tie := .up
  positional := none
  pointZero := false
  plusSign := false

/-- The text of a double. Whole numbers below 10^15 are written as integers, which have no negative
zero. -/
def floatText (x : Float) : String :=
  if x.isNaN then "NAN"
  else if x.isInf then if 0 < x then "INF" else "-INF"
  else if Number.isWhole x && x.abs < 1e15 then toString (Number.truncate x)
  else floatLayout.render x

/-- The value of a key. -/
def Key.toValue : Key → Value
  | int i => .int i
  | text s => .string s
  | other v => v

/-- The text of a value where the script asks for a string. -/
def Value.toText : Value → String
  | null => ""
  | bool b => if b then "1" else ""
  | int i => Integer.render i
  | float x => floatText x
  | string s => s
  | array _ => "Array"
  | expression source => source

/-- The text of a key. -/
def Key.toText (k : Key) : String := k.toValue.toText

/-- Whether the keys are 0, 1, 2, … in order, from `n` on. -/
def isListFrom (n : Nat) : List (Key × Value) → Bool
  | [] => true
  | (k, _) :: rest => k == .int (Int64.ofNat n) && isListFrom (n + 1) rest

/-- Whether the elements are numbered from zero in order. -/
def isList (items : List (Key × Value)) : Bool := isListFrom 0 items

end ConfigScript
