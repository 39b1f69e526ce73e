import ConfigScript.Assoc
import ConfigScript.Text.Bytes
import ConfigScript.Value.Numeric

/-!
# Elements of values

Reading and changing what an array holds under a path of keys. The step `none` of a path stands for
the next free index.
-/

namespace ConfigScript.Value

/-- The index that an appended element gets: the greatest one behind an index, but none below zero.
Behind the greatest integer stands the least one. -/
def nextIndex (items : List (Key × Value)) : Int64 :=
  let behind : List Int64 := items.filterMap fun (k, _) => match k with
    | .int i => some (i + 1)
    | _ => none
  behind.foldl max 0

/-- The character of a text at a byte offset as a text, which is empty unless a character of one
byte stands there. -/
def characterAt (text : List Char) (offset : Nat) : String :=
  match Text.charAtByte offset text with
  | some c => if c.utf8Size = 1 then String.singleton c else ""
  | none => ""

/-- The element of `base` under `index`: an element of an array, or a character of a text, counted
in bytes and from the end if the index is negative. -/
def index? (base index : Value) : Option Value :=
  match base with
  | array items => index.key?.map fun k => (Assoc.lookup k items).getD null
  | string s =>
    match index.key? with
    | some (.int i) =>
      let n := i.toInt
      if 0 ≤ n then some (string (characterAt s.toList n.toNat))
      else if n.natAbs ≤ Text.byteLength s.toList then
        some (string (characterAt s.toList (Text.byteLength s.toList - n.natAbs)))
      else none
    | _ => none
  | null => some null
  | _ => none

/-- What stands under a path. -/
def lookupPath (slot : Value) : List (Option Key) → Option Value
  | [] => some slot
  | none :: _ => none
  | some k :: rest =>
    match slot with
    | array items => (Assoc.lookup k items).bind fun child => lookupPath child rest
    | _ => none

/-- Put `new` under a path. Values on the way that are not arrays are replaced by arrays, but
nothing is put into an unknown value. -/
def setPath (slot : Value) (path : List (Option Key)) (new : Value) : Value :=
  match path with
  | [] => new
  | step :: rest =>
    match slot with
    | expression _ => slot
    | slot =>
      -- A value that is no array gives way to an array.
      let items := match slot with
        | array items => items
        | _ => []
      let key := step.getD (.int (nextIndex items))
      array (Assoc.insert key (setPath ((Assoc.lookup key items).getD null) rest new) items)

/-- Drop what stands under a path. -/
def removePath (slot : Value) (path : List Key) : Value :=
  match slot, path with
  | array items, [k] => array (Assoc.erase k items)
  | array items, k :: l :: rest =>
    match Assoc.lookup k items with
    | some child => array (Assoc.insert k (removePath child (l :: rest)) items)
    | none => slot
  | _, _ => slot

end ConfigScript.Value
