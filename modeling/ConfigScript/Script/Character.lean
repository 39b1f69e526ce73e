/-!
# Character classes of the script language

Names consist of ASCII letters, digits, underscores and every character beyond ASCII; they do not
begin with a digit. Between tokens stand six ASCII characters of white space.
-/

namespace ConfigScript.Script

/-- Whether a name may begin with `c`. -/
def isNameStart (c : Char) : Bool := c.isAlpha || c == '_' || 0x80 ≤ c.toNat

/-- Whether `c` may stand inside a name. -/
def isNameChar (c : Char) : Bool := isNameStart c || c.isDigit

/-- White space between tokens. -/
def isGap (c : Char) : Bool :=
  c == ' ' || c == '\t' || c == '\r' || c == '\n' || c == '\x0b' || c == '\x0c'

/-- White space that belongs to the opening tag before it, if it stands alone. -/
def isTagGap (c : Char) : Bool := isGap c && c != '\x0b'

/-- Spaces and tabs, the characters that indent a line. -/
def isIndent (c : Char) : Bool := c == ' ' || c == '\t'

/-- Whether the text begins with a name. -/
def startsName (cs : List Char) : Bool := cs.head?.any isNameStart

/-- ASCII letters in lower case, all else unchanged. -/
def lower (cs : List Char) : List Char := cs.map Char.toLower

/-- Whether two texts agree up to the case of ASCII letters. -/
def sameWord (as bs : List Char) : Bool := lower as == lower bs

theorem isNameChar_of_isNameStart {c : Char} (h : isNameStart c) : isNameChar c := by
  simp [isNameChar, h]

end ConfigScript.Script
