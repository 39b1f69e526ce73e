import ConfigScript.Assoc
import ConfigScript.Format.Data
import ConfigScript.Number.Shortest
import ConfigScript.Text.Digits

/-!
# JSON

Data as compact JSON. Doubles are written with the fewest digits that read back, and with a point or
an exponent, so that they are not taken for integers; JSON knows no infinities and no NaN, which are
written as `null`.
-/

namespace ConfigScript.Format.Json

/-- The notation of doubles. -/
def floatLayout : Number.Layout where
  tie := .even
  positional := some (-5, 15)
  pointZero := true
  plusSign := true

/-- A character inside a string literal. -/
def escape (c : Char) : List Char :=
  if c == '"' then ['\\', '"']
  else if c == '\\' then ['\\', '\\']
  else if c == '\x08' then ['\\', 'b']
  else if c == '\x0c' then ['\\', 'f']
  else if c == '\n' then ['\\', 'n']
  else if c == '\r' then ['\\', 'r']
  else if c == '\t' then ['\\', 't']
  else if c.toNat < 0x20 then '\\' :: 'u' :: Text.hexPadded 4 c.toNat
  else [c]

/-- A string literal. -/
def quote (s : String) : String := "\"" ++ String.ofList (s.toList.flatMap escape) ++ "\""

/-- A double. -/
def ofFloat (x : Float) : String := if x.isFinite then floatLayout.render x else "null"

mutual

/-- Data as JSON. -/
def render : Data → String
  | .null => "null"
  | .bool b => if b then "true" else "false"
  | .int i => Integer.render i
  | .float x => ofFloat x
  | .text s => quote s
  | .list items => "[" ++ ",".intercalate (renderItems items) ++ "]"
  | .mapping entries => "\x7b" ++ ",".intercalate (renderEntries entries) ++ "\x7d"

/-- The elements of a list. -/
def renderItems : List Data → List String
  | [] => []
  | d :: ds => render d :: renderItems ds

/-- The entries of a mapping. -/
def renderEntries : List (String × Data) → List String
  | [] => []
  | (k, d) :: rest => (quote k ++ ":" ++ render d) :: renderEntries rest

end

mutual

/-- The data that a reader of its JSON gets: numbers without a notation are `null`, and of entries
with the same key the last one counts, in the place of the first. -/
def readBack : Data → Data
  | .float x => if x.isFinite then .float x else .null
  | .list items => .list (readBackItems items)
  | .mapping entries => .mapping (readBackEntries [] entries)
  | d => d

/-- The elements of a list as they are read. -/
def readBackItems : List Data → List Data
  | [] => []
  | d :: ds => readBack d :: readBackItems ds

/-- The entries of a mapping as they are read, behind those in `done`. -/
def readBackEntries (done : List (String × Data)) : List (String × Data) → List (String × Data)
  | [] => done
  | (k, d) :: rest => readBackEntries (Assoc.insert k (readBack d) done) rest

end

end ConfigScript.Format.Json
