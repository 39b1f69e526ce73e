import ConfigScript.Value.Numeric

/-!
# Comparing values

Identity asks for the same type and content. The loose order converts first: by truth where `null`
or a boolean takes part, by number where numbers or numeric texts meet, by characters otherwise. An
array is greater than everything else; two arrays are compared by length, then by the elements of
the left one in order. Where a key is missing on the right, or a NaN takes part, there is no answer.
-/

namespace ConfigScript.Value

mutual

/-- Whether two keys have the same type and content. -/
def identicalKeys : Key → Key → Bool
  | .int i, .int j => i == j
  | .text s, .text t => s == t
  | .other v, .other w => identical v w
  | _, _ => false

/-- Whether two values have the same type and content; elements must be in the same order. -/
def identical : Value → Value → Bool
  | null, null => true
  | bool a, bool b => a == b
  | int a, int b => a == b
  | float a, float b => a == b
  | string a, string b => a == b
  | array a, array b => identicalItems a b
  | expression a, expression b => a == b
  | _, _ => false

/-- Whether two lists of elements are identical. -/
def identicalItems : List (Key × Value) → List (Key × Value) → Bool
  | [], [] => true
  | (k, v) :: a, (l, w) :: b => identicalKeys k l && identical v w && identicalItems a b
  | _, _ => false

end

/-- Compare a number with a text: as numbers if the text is numeric, else as texts. -/
def compareWithText (v : Value) (text : String) : Option Ordering :=
  v.numeric?.bind fun n =>
    match numericText? text.toList with
    | some m => n.compare? m
    | none => some (compare v.toText text)

/-- Compare two texts: as numbers if both are numeric. -/
def compareTexts (a b : String) : Option Ordering :=
  match numericText? a.toList, numericText? b.toList with
  | some n, some m => n.compare? m
  | _, _ => some (compare a b)

/-- The loose order of values that are not both arrays. -/
def compareFlat? (left right : Value) : Option Ordering :=
  if left.isOpaque || right.isOpaque then none
  else match left, right with
    | null, string t => some (compare "" t)
    | string s, null => some (compare s "")
    | null, _ | bool _, _ | _, null | _, bool _ =>
      some (compare left.isTruthy right.isTruthy)
    | array _, _ => some .gt
    | _, array _ => some .lt
    | string s, string t => compareTexts s t
    | string s, _ => (compareWithText right s).map Ordering.swap
    | _, string t => compareWithText left t
    | _, _ => left.numeric?.bind fun n => right.numeric?.bind n.compare?

mutual

/-- The loose order. -/
def compare? : Value → Value → Option Ordering
  | array a, array b =>
    if a.length = b.length then compareItems? a b else some (compare a.length b.length)
  | a, b => compareFlat? a b

/-- Compare elements with those of the same key in `others`. -/
def compareItems? : List (Key × Value) → List (Key × Value) → Option Ordering
  | [], _ => some .eq
  | (k, v) :: rest, others =>
    match others.find? fun (l, _) => identicalKeys l k with
    | none => none
    | some (_, w) =>
      match compare? v w with
      | some .eq => compareItems? rest others
      | unequal => unequal

end

/-- Loose equality. -/
def looselyEqual (a b : Value) : Bool := compare? a b == some .eq

end ConfigScript.Value
