import ConfigScript.Value

/-!
# Values as data

The tree that data formats write down: an array whose keys number its elements in order is a list,
any other array a mapping from texts.
-/

namespace ConfigScript

/-- A tree of data. -/
inductive Data where
  | null
  | bool (b : Bool)
  | int (i : Int64)
  | float (x : Float)
  | text (s : String)
  | list (items : List Data)
  | mapping (entries : List (String × Data))
deriving Repr, Inhabited

mutual

/-- A value as data. -/
def Value.toData : Value → Data
  | .null => .null
  | .bool b => .bool b
  | .int i => .int i
  | .float x => .float x
  | .string s => .text s
  | .array items =>
    if isList items then .list ((dataEntries items).map (·.2)) else .mapping (dataEntries items)
  | .expression source => .text source

/-- The elements of an array with the texts of their keys. -/
def dataEntries : List (Key × Value) → List (String × Data)
  | [] => []
  | (k, v) :: rest => (k.toText, v.toData) :: dataEntries rest

end

end ConfigScript
