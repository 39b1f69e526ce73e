import ConfigScript.Script.Lexer.Quoted
import ConfigScript.Text.Search

/-!
# Environment files

Lines of the form `NAME='value'`. Quotes and backslashes in a value are escaped by a backslash. A
name ends with the first equals sign, so one that holds an equals sign does not read back.
-/

namespace ConfigScript.Format.Dotenv

/-- A name with its value. -/
def item (name value : String) : List Char :=
  name.toList ++ '=' :: Script.Quoted.quote value.toList

/-- Items one below the other. -/
def render (items : List (String × String)) : String :=
  String.ofList (Text.join ['\n'] (items.map fun (name, value) => item name value))

/-! ### Reading -/

/-- Read an item: name and value, and what follows. -/
def readItem? (cs : List Char) : Option ((List Char × List Char) × List Char) :=
  match cs.dropWhile (· != '=') with
  | '=' :: '\'' :: r =>
    (Script.Quoted.read? r).map fun (value, rest) => ((cs.takeWhile (· != '='), value), rest)
  | _ => none

/-- What is left behind a line is the end of the text, so the reader comes to an end. -/
theorem readItem?_suffix {cs rest : List Char} {x : List Char × List Char}
    (h : readItem? cs = some (x, rest)) : rest <:+ cs := by
  unfold readItem? at h
  split at h
  · rename_i r hr
    obtain ⟨⟨t, rest'⟩, hq, heq⟩ := Option.map_eq_some_iff.1 h
    injection heq with _ heq
    subst heq
    have tail : r <:+ '=' :: '\'' :: r := (List.suffix_cons _ _).trans (List.suffix_cons _ _)
    exact (Script.Quoted.read?_suffix hq).trans
      (tail.trans (hr ▸ List.dropWhile_suffix (· != '=')))
  · cases h

/-- Read items, of which there is at least one. -/
def readItems? (cs : List Char) : Option (List (List Char × List Char)) :=
  match h : readItem? cs with
  | none => none
  | some (x, []) => some [x]
  | some (x, mark :: rest) =>
    have : rest.length < cs.length := (readItem?_suffix h).length_le
    if mark == '\n' then (readItems? rest).map (x :: ·) else none
termination_by cs.length

/-- Read items; the empty text has none. -/
def read? (cs : List Char) : Option (List (List Char × List Char)) :=
  if cs.isEmpty then some [] else readItems? cs

end ConfigScript.Format.Dotenv
