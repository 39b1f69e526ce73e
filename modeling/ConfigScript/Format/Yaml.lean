import ConfigScript.Format.Data
import ConfigScript.Number.Decimal
import ConfigScript.Number.Shortest
import ConfigScript.Text.Blank
import ConfigScript.Text.Bytes
import ConfigScript.Text.Digits

/-!
# YAML

Data as block-style YAML. A text is written plain where it reads back as that text. A text that
would read as something else, or would be taken for syntax, is put in single quotes; one with line
feeds becomes a literal block; one with characters that cannot be shown is put in double quotes,
with escapes. Lists inside mappings are not indented, all else by two columns a level.
-/

namespace ConfigScript.Format.Yaml

/-! ### Texts that read as something else -/

/-- Digits with a leading zero, which are no number. -/
def isZeroPadded (cs : List Char) : Bool :=
  let ds := match cs with
    | '-' :: r => r
    | '+' :: r => r
    | r => r
  1 < ds.length && ds.head? == some '0' && ds.all Char.isDigit

/-- Whether the text, in which a sign may come first, is an integer of a radix below `bound`. -/
def isNumeral (radix bound : Nat) (cs : List Char) : Bool :=
  (Text.numeral? radix cs).any (· < bound)

/-- Whether a radix mark and digits of that radix follow: `0x`, `0o` or `0b`. -/
def isRadixNumeral (bound : Nat) : List Char → Bool
  | '0' :: 'x' :: ds => isNumeral 16 bound ds
  | '0' :: 'o' :: ds => isNumeral 8 bound ds
  | '0' :: 'b' :: ds => isNumeral 2 bound ds
  | _ => false

/-- Whether the text reads as an integer with a radix mark. Such integers have 128 bits: a negative
one may reach half as far as the others. -/
def isMarkedInteger : List Char → Bool
  | '-' :: cs => isRadixNumeral ((1 <<< 127) + 1) cs
  | '+' :: cs => isRadixNumeral (1 <<< 128) cs
  | cs => isRadixNumeral (1 <<< 128) cs

/-- Whether the text reads as a decimal number that is in the range of doubles. -/
def isDecimal (cs : List Char) : Bool :=
  let unsigned := match cs with
    | '+' :: '+' :: _ => []
    | '+' :: '-' :: _ => []
    | '+' :: r => r
    | r => r
  (Decimal.float? unsigned).any Float.isFinite

/-- The words that read as `null`, a boolean or a number that is not finite. -/
def reservedWords : List String :=
  ["", "null", "Null", "NULL", "~", "true", "True", "TRUE", "false", "False", "FALSE", ".inf",
    ".Inf", ".INF", "+.inf", "+.Inf", "+.INF", "-.inf", "-.Inf", "-.INF", ".nan", ".NaN", ".NAN"]

/-- Whether a plain text would not read back as that text, or might not. -/
def isAmbiguous (s : String) : Bool :=
  reservedWords.contains s || isZeroPadded s.toList || isMarkedInteger s.toList ||
    isDecimal s.toList

/-! ### Which styles a text allows -/

/-- Characters that end a line. -/
def isBreak (c : Char) : Bool :=
  c == '\n' || c == '\r' || c == '\x85' || c == '\u2028' || c == '\u2029'

/-- Characters that separate, or the end. -/
def separates (c : Option Char) : Bool :=
  c.all fun c => c == ' ' || c == '\t' || c == '\x00' || isBreak c

/-- Characters that are shown as they are. -/
def isPrintable (c : Char) : Bool :=
  let n := c.toNat
  n == 0x0A || (0x20 ≤ n && n ≤ 0x7E) || (0xA0 ≤ n && n ≤ 0xFFFD && n != 0xFEFF) || 0x10000 ≤ n

/-- Whether a character that satisfies `p` is followed by one that satisfies `q`. -/
def hasPair (p q : Char → Bool) : List Char → Bool
  | a :: b :: r => (p a && q b) || hasPair p q (b :: r)
  | _ => false

/-- Whether a mark inside the text would be taken for syntax: a colon before a gap, or a number sign
behind one. `previous` comes before the text. -/
def hasInnerMark (previous : Char) : List Char → Bool
  | [] => false
  | c :: r =>
    (c == ':' && separates r.head?) || (c == '#' && separates (some previous)) || hasInnerMark c r

/-- Characters that no plain text begins with. -/
def leadingMarks : List Char :=
  ['#', ',', '[', ']', '\x7b', '\x7d', '&', '*', '!', '|', '>', '\'', '"', '%', '@', '\x60']

/-- Whether the text would be taken for syntax. -/
def hasMark (cs : List Char) : Bool :=
  match cs with
  | [] => false
  | c :: r =>
    ['-', '-', '-'].isPrefixOf cs || ['.', '.', '.'].isPrefixOf cs || leadingMarks.contains c ||
      ((c == '?' || c == ':' || c == '-') && separates r.head?) || hasInnerMark c r

/-- Whether single quotes can hold the text. -/
def allowsQuotes (cs : List Char) : Bool :=
  cs.all isPrintable && !hasPair isBreak (· == ' ') cs && !hasPair (· == ' ') isBreak cs

/-- Whether a literal block can hold the text. -/
def allowsBlock (cs : List Char) : Bool :=
  cs.all isPrintable && !hasPair (· == ' ') isBreak cs && cs.getLast? != some ' '

/-- Whether the text can stand without quotes. -/
def allowsPlain (cs : List Char) : Bool :=
  cs.all isPrintable && !cs.any isBreak && cs.head? != some ' ' && cs.getLast? != some ' ' &&
    !hasMark cs

/-! ### Texts -/

/-- A line's indentation. -/
def spaces (n : Nat) : String := String.ofList (List.replicate n ' ')

/-- The letter that escapes a character, if it has one. -/
def escapeLetter? (c : Char) : Option Char :=
  match c.toNat with
  | 0x00 => some '0'
  | 0x07 => some 'a'
  | 0x08 => some 'b'
  | 0x09 => some 't'
  | 0x0A => some 'n'
  | 0x0B => some 'v'
  | 0x0C => some 'f'
  | 0x0D => some 'r'
  | 0x1B => some 'e'
  | 0x22 => some '"'
  | 0x5C => some '\\'
  | 0x85 => some 'N'
  | 0x2028 => some 'L'
  | 0x2029 => some 'P'
  | _ => none

/-- Upper-case hexadecimal notation. -/
def upperHex (width n : Nat) : List Char := (Text.hexPadded width n).map Char.toUpper

/-- A character inside double quotes. -/
def escape (c : Char) : List Char :=
  if isPrintable c && !isBreak c && c != '"' && c != '\\' then [c]
  else match escapeLetter? c with
    | some l => ['\\', l]
    | none =>
      if c.toNat ≤ 0xFF then '\\' :: 'x' :: upperHex 2 c.toNat
      else if c.toNat ≤ 0xFFFF then '\\' :: 'u' :: upperHex 4 c.toNat
      else '\\' :: 'U' :: upperHex 8 c.toNat

/-- A text in double quotes. -/
def doubleQuoted (cs : List Char) : String := "\"" ++ String.ofList (cs.flatMap escape) ++ "\""

/-- The inside of single quotes; `broken` says that a line was just ended. -/
def singleQuotedBody (indent : Nat) (broken : Bool) : List Char → String
  | [] => if broken then spaces indent else ""
  | c :: r =>
    if isBreak c then String.singleton c ++ singleQuotedBody indent true r
    else (if broken then spaces indent else "") ++
      (if c == '\'' then "''" else String.singleton c) ++ singleQuotedBody indent false r

/-- A text in single quotes. -/
def singleQuoted (indent : Nat) (cs : List Char) : String :=
  "'" ++ singleQuotedBody indent false cs ++ "'"

/-- The lines of a literal block; `broken` says that a line was just ended. -/
def blockBody (indent : Nat) (broken : Bool) : List Char → String
  | [] => ""
  | c :: r =>
    if isBreak c then String.singleton c ++ blockBody indent true r
    else (if broken then spaces indent else "") ++ String.singleton c ++ blockBody indent false r

/-- The hint that gives the indentation, where the text begins with white space. -/
def indentHint (cs : List Char) : String :=
  if cs.head?.any fun c => c == ' ' || isBreak c then "2" else ""

/-- The hint that says what becomes of line breaks at the end: all are dropped, one is kept, or all
are kept. -/
def chompHint (cs : List Char) : String :=
  match cs.reverse with
  | [] => "-"
  | c :: r => if !isBreak c then "-" else if r.head?.all isBreak then "+" else ""

/-- A literal block. -/
def block (indent : Nat) (cs : List Char) : String :=
  "|" ++ indentHint cs ++ chompHint cs ++ "\n" ++ blockBody indent true cs

/-- A text in quotes. -/
def quoted (indent : Nat) (cs : List Char) : String :=
  if allowsQuotes cs then singleQuoted indent cs else doubleQuoted cs

/-- A text whose further lines are indented by `indent`. -/
def ofText (indent : Nat) (s : String) : String :=
  let cs := s.toList
  -- A text with line feeds is never written plain, even where it would read back.
  if cs.contains '\n' then if allowsBlock cs then block indent cs else doubleQuoted cs
  else if isAmbiguous s || !allowsPlain cs then quoted indent cs
  else s

/-! ### Trees -/

/-- The notation of doubles. -/
def floatLayout : Number.Layout where
  tie := .even
  positional := some (-5, 15)
  pointZero := true
  plusSign := false

/-- A double. -/
def ofFloat (x : Float) : String :=
  if x.isNaN then ".nan"
  else if x.isInf then if 0 < x then ".inf" else "-.inf"
  else floatLayout.render x

/-- What stands before a node. -/
inductive Slot where
  /-- Nothing: the node is the whole document. -/
  | root
  /-- A mark on the same line, behind which the node's entries may begin. -/
  | item
  /-- A key on the same line, behind which only scalars may begin. -/
  | value
deriving DecidableEq, Repr

/-- Put `next` on a new line. -/
def follow (indent : Nat) (text next : String) : String :=
  text ++ (if text.toList.getLast?.any isBreak then "" else "\n") ++ spaces indent ++ next

/-- Lines one below the other, the first one on the current line. -/
def stack (indent : Nat) : List String → String
  | [] => ""
  | l :: ls => ls.foldl (follow indent) l

/-- A scalar behind what stands before it. -/
def scalarIn (slot : Slot) (text : String) : String :=
  if slot = .root then text else " " ++ text

/-- Entries behind what stands before them. -/
def entriesIn (slot : Slot) (indent : Nat) (entries : List String) : String :=
  match slot with
  | .root => stack indent entries
  | .item => " " ++ stack indent entries
  | .value => "\n" ++ spaces indent ++ stack indent entries

/-- The indentation of the entries of a list in a node at `indent`. -/
def listIndent (slot : Slot) (indent : Nat) : Nat :=
  match slot with
  | .root => 0
  | .item => indent + 2
  | .value => indent

/-- The indentation of the entries of a mapping in a node at `indent`. -/
def mappingIndent (slot : Slot) (indent : Nat) : Nat :=
  match slot with
  | .root => 0
  | _ => indent + 2

/-- Whether a key can stand in front of its colon, rather than in an entry of its own. -/
def isSimpleKey (k : String) : Bool := !k.toList.any isBreak && Text.byteLength k.toList ≤ 128

mutual

/-- A node of a document, whose parent is indented by `indent`. -/
def node (slot : Slot) (indent : Nat) : Data → String
  | .null => scalarIn slot "null"
  | .bool b => scalarIn slot (if b then "true" else "false")
  | .int i => scalarIn slot (Integer.render i)
  | .float x => scalarIn slot (ofFloat x)
  | .text s => scalarIn slot (ofText (indent + 2) s)
  | .list [] => scalarIn slot "[]"
  | .mapping [] => scalarIn slot "\x7b\x7d"
  | .list (d :: ds) =>
    let n := listIndent slot indent
    entriesIn slot n (("-" ++ node .item n d) :: listLines n ds)
  | .mapping ((k, d) :: rest) =>
    let n := mappingIndent slot indent
    let first :=
      if isSimpleKey k then ofText (n + 2) k ++ ":" ++ node .value n d
      -- The key has an entry of its own, and so has its value.
      else follow n ("? " ++ ofText (n + 2) k) (":" ++ node .item n d)
    entriesIn slot n (first :: mappingLines n rest)

/-- The entries of a list. -/
def listLines (n : Nat) : List Data → List String
  | [] => []
  | d :: ds => ("-" ++ node .item n d) :: listLines n ds

/-- The entries of a mapping. -/
def mappingLines (n : Nat) : List (String × Data) → List String
  | [] => []
  | (k, d) :: rest =>
    (if isSimpleKey k then ofText (n + 2) k ++ ":" ++ node .value n d
      else follow n ("? " ++ ofText (n + 2) k) (":" ++ node .item n d)) :: mappingLines n rest

end

/-- A document, without white space at its end. -/
def render (d : Data) : String := String.ofList (Text.trimEnd (node .root 0 d).toList)

end ConfigScript.Format.Yaml
