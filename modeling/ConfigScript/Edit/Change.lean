import ConfigScript.Edit.Occurrence
import ConfigScript.Edit.Splice
import ConfigScript.Error
import ConfigScript.Script.Parser

/-!
# Changing what a script defines

Setting constants and variables in a source text. An entry that exists is changed where it is defined
first; a new one is inserted at an anchor. The results are texts: nothing is written here.
-/

namespace ConfigScript.Edit

/-- The comment in front of which new entries are put unless told otherwise. -/
def standardAnchor : List Char := "/* That's all, stop editing!".toList

/-- Where new entries are put. -/
inductive Anchor where
  /-- At the standard anchor, or at the end of a text without it. -/
  | standard
  | atEnd
  /-- At a marker that must occur. -/
  | marker (text : List Char)
deriving DecidableEq, Repr

/-- The anchor that a text stands for: `EOF` is the end. -/
def Anchor.ofText (text : List Char) : Anchor :=
  if text = ['E', 'O', 'F'] then .atEnd else .marker text

/-- How an entry is set. -/
structure Options where
  /-- The value is source text, not a string. -/
  raw : Bool
  /-- An entry that does not exist is added. -/
  add : Bool
  /-- The whole statement is written anew in its usual form. -/
  normalize : Bool
  anchor : Anchor
  placement : Placement
  /-- What stands between a new statement and the anchor. -/
  separator : List Char
deriving DecidableEq, Repr

/-- The usual options. -/
def Options.standard : Options where
  raw := false
  add := true
  normalize := false
  anchor := .standard
  placement := .beforeAnchor
  separator := ['\n']

/-- Whether the text is the name of a variable, in ASCII characters. -/
def isVariableName (name : List Char) : Bool :=
  match name with
  | [] => false
  | c :: cs => (c == '_' || c.isAlpha) && cs.all fun d => d == '_' || d.isAlphanum

/-- The statement that defines an entry, in its usual form. -/
def statement (kind : EntryKind) (name : String) (literal : List Char) : List Char :=
  match kind with
  | .var => '$' :: name.toList ++ [' ', '=', ' '] ++ literal ++ [';']
  | _ =>
    "define( ".toList ++ Script.Quoted.quote name.toList ++ [',', ' '] ++ literal ++
      [' ', ')', ';']

/-- Insert a statement where the options say. `file` is the name of the file for messages. -/
def insert (o : Options) (file : String) (source addition : List Char) :
    Except ConfigError (List Char) :=
  match o.anchor with
  | .atEnd => .ok (appendAtEnd source o.separator addition)
  | .standard =>
    .ok ((insertAt source standardAnchor o.separator addition o.placement).getD
      (appendAtEnd source o.separator addition))
  | .marker m =>
    if m.isEmpty then .error .anchorEmpty
    else match insertAt source m o.separator addition o.placement with
      | some text => .ok text
      | none => .error (.anchorNotFound (String.ofList m) file)

/-- Write `literal` where an occurrence has its value, or as a new statement in its place. -/
def substitute (o : Options) (kind : EntryKind) (name : String) (literal source : List Char)
    (found : Occurrence) : List Char :=
  match o.normalize, found.statement with
  | true, some s => splice source s (statement kind name literal)
  | _, _ => splice source found.value literal

/-- The source text with `name` set to `value`. -/
def set (o : Options) (file : String) (kind : EntryKind) (name : String) (value : List Char)
    (source : List Char) (body : List Stmt) : Except ConfigError (List Char) :=
  let literal := if o.raw then value else Script.Quoted.quote value
  match Occurrence.all kind name body with
  | found :: _ => .ok (substitute o kind name literal source found)
  | [] =>
    if o.add then insert o file source (statement kind name literal)
    else .error (.notDefined kind name file)

end ConfigScript.Edit
