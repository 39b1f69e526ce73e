import ConfigScript.Script.Character
import ConfigScript.Value

/-!
# Values as numbers

Every value but an array or an unknown expression can be read as a number. Of a text it is the
longest numeric prefix that counts, after white space; a text without one counts as zero.
-/

namespace ConfigScript

/-- A number: an integer, or a double. -/
inductive Numeric where
  | int (i : Int64)
  | float (x : Float)
deriving DecidableEq, Repr

namespace Numeric

/-- The number as a double. -/
def toFloat : Numeric → Float
  | int i => Number.ofInt i.toInt
  | float x => x

/-- The number as a value. -/
def toValue : Numeric → Value
  | int i => .int i
  | float x => .float x

/-- Order of doubles; a NaN has no place in it. -/
def compareFloats (x y : Float) : Option Ordering :=
  if x < y then some .lt else if x == y then some .eq else if y < x then some .gt else none

/-- Integers are compared exactly, all else as doubles. -/
def compare? : Numeric → Numeric → Option Ordering
  | int i, int j => some (compare i.toInt j.toInt)
  | a, b => compareFloats a.toFloat b.toFloat

end Numeric

/-! ### Numeric prefixes -/

/-- A numeral in pieces that make up a prefix of a text, and the rest of the text. -/
structure Numeral where
  sign : List Char
  whole : List Char
  /-- The point and the digits behind it. -/
  fraction : List Char
  exponent : List Char
  rest : List Char
deriving DecidableEq, Repr

namespace Numeral

/-- The text of the numeral. -/
def text (n : Numeral) : List Char := n.sign ++ n.whole ++ n.fraction ++ n.exponent

/-- Split off a sign. -/
def splitSign : List Char → List Char × List Char
  | '+' :: cs => (['+'], cs)
  | '-' :: cs => (['-'], cs)
  | cs => ([], cs)

/-- Split off digits. -/
def splitDigits (cs : List Char) : List Char × List Char :=
  (cs.takeWhile Char.isDigit, cs.dropWhile Char.isDigit)

/-- Split off a point and digits. There must be digits on one side of the point at least. -/
def splitFraction (whole : List Char) : List Char → List Char × List Char
  | '.' :: cs =>
    let (ds, rest) := splitDigits cs
    if whole.isEmpty && ds.isEmpty then ([], '.' :: cs) else ('.' :: ds, rest)
  | cs => ([], cs)

/-- Split off an exponent, which has a digit at least. -/
def splitExponent (cs : List Char) : List Char × List Char :=
  match cs with
  | [] => ([], [])
  | c :: r =>
    if c == 'e' || c == 'E' then
      let (sign, r) := splitSign r
      let (ds, rest) := splitDigits r
      if ds.isEmpty then ([], cs) else (c :: (sign ++ ds), rest)
    else ([], cs)

/-- The longest numeral that the text begins with. -/
def read? (cs : List Char) : Option Numeral :=
  let (sign, r) := splitSign cs
  let (whole, r) := splitDigits r
  let (fraction, r) := splitFraction whole r
  if whole.isEmpty && fraction.isEmpty then none
  else
    let (exponent, rest) := splitExponent r
    some ⟨sign, whole, fraction, exponent, rest⟩

/-- The number that a numeral denotes: an integer if it is written as one and fits, else a
double. -/
def value? (n : Numeral) : Option Numeric :=
  if n.fraction.isEmpty && n.exponent.isEmpty then
    match Integer.parse? n.text with
    | some i => some (.int i)
    | none => (Decimal.float? n.text).map .float
  else (Decimal.float? n.text).map .float

end Numeral

/-- The number that a text begins with after white space, and the rest of the text. -/
def numericPrefix? (cs : List Char) : Option (Numeric × List Char) :=
  (Numeral.read? (cs.dropWhile Script.isGap)).bind fun n => n.value?.map fun v => (v, n.rest)

/-- The number that a whole text denotes; white space may stand around it. -/
def numericText? (cs : List Char) : Option Numeric :=
  (numericPrefix? cs).bind fun (v, rest) => if rest.all Script.isGap then some v else none

namespace Value

/-- The value as a number. -/
def numeric? : Value → Option Numeric
  | null => some (.int 0)
  | bool b => some (.int (if b then 1 else 0))
  | int i => some (.int i)
  | float x => some (.float x)
  | string s => some (((numericPrefix? s.toList).map (·.1)).getD (.int 0))
  | array _ | expression _ => none

/-- The value as an integer; what has no place among the integers counts as zero. -/
def toInt (v : Value) : Int64 :=
  match v with
  | array items => if items.isEmpty then 0 else 1
  | expression _ => 0
  | v =>
    match v.numeric? with
    | some (.int i) => i
    | some (.float x) => if x.isFinite then Number.toInt64 x else 0
    | none => 0

/-- The array key that the value stands for. A text that is an integer in canonical form stands for
that integer. -/
def key? : Value → Option Key
  | int i => some (.int i)
  | string s =>
    match Integer.parse? s.toList with
    | some i => some (if Integer.render i = s then .int i else .text s)
    | none => some (.text s)
  | bool b => some (.int (if b then 1 else 0))
  | float x => if x.isFinite then some (.int (Number.toInt64 x)) else none
  | null => some (.text "")
  | array _ | expression _ => none

end Value

end ConfigScript
