import ConfigScript.Format.WidthTable

/-!
# Columns of single characters

How many columns of a terminal a character takes that stands alone, and the classes of characters
that are shown as one sign with their neighbours. Most characters take one column, wide ones two,
and combining ones none.
-/

namespace ConfigScript.Format

/-- Whether one of the ranges holds the character. -/
def within (ranges : List (Nat × Nat)) (c : Char) : Bool :=
  ranges.any fun (first, last) => first ≤ c.toNat && c.toNat ≤ last

/-- The columns of a character that stands alone. -/
def charWidth (c : Char) : Nat :=
  if c.toNat ≤ 0xA0 then 1
  -- The one character that is drawn as a whole word.
  else if c.toNat == 0x17D8 then 3
  else if within zeroRanges c then 0
  else if within wideRanges c then 2
  else 1

/-! ### Pictures -/

/-- The characters that change the colour of the picture before them. -/
def isColour (c : Char) : Bool := within [(0x1F3FB, 0x1F3FF)] c

/-- Pictures whose colour can be changed. -/
def isColourable (c : Char) : Bool := within colourableRanges c

/-- The letters that name a flag in pairs. -/
def isFlagLetter (c : Char) : Bool := within [(0x1F1E6, 0x1F1FF)] c

/-- Characters that are pictures by themselves. -/
def isPicture (c : Char) : Bool := within pictureRanges c

/-- Characters that a selector behind them turns into pictures. -/
def isSelectable (c : Char) : Bool := within selectableRanges c

/-- Pictures that a selector behind them turns into signs of one column. Ideographs in frames stay
wide. -/
def isFlattened (c : Char) : Bool :=
  isSelectable c && isPicture c && !within [(0x1F200, 0x1F2FF)] c

/-- The flag that tags behind it make the flag of a region. -/
def isTagged (c : Char) : Bool := c.toNat == 0x1F3F4

/-- Invisible letters in the name of a region. -/
def isTagLetter (c : Char) : Bool := within [(0xE0061, 0xE007A)] c

/-- Invisible digits in the name of a region. -/
def isTagDigit (c : Char) : Bool := within [(0xE0030, 0xE0039)] c

/-! ### Punctuation -/

/-- Quotation marks, whose width can be selected. -/
def isQuotationMark (c : Char) : Bool := within [(0x2018, 0x2019), (0x201C, 0x201D)] c

/-- The columns of a quotation mark in front of a selector of its width. -/
def selectedWidth? (c : Char) : Option Nat :=
  match c.toNat with
  | 0xFE00 | 0xFE02 => some 1
  | 0xFE01 => some 2
  | _ => none

/-! ### Letters -/

/-- Marks that are not shown and do not part a ligature. -/
def isInvisibleMark (c : Char) : Bool :=
  within [(0x34F, 0x34F), (0x17B4, 0x17B5), (0x180B, 0x180D), (0x180F, 0x180F), (0xFE00, 0xFE0F),
    (0xE0100, 0xE01EF)] c

/-- The Arabic letters of the shape of an alef. -/
def isAlef (c : Char) : Bool :=
  within [(0x622, 0x623), (0x625, 0x625), (0x627, 0x627), (0x671, 0x673), (0x675, 0x675),
    (0x773, 0x774), (0x870, 0x882)] c

/-- The Arabic letters of the shape of a lam. -/
def isLam (c : Char) : Bool :=
  within [(0x644, 0x644), (0x6B5, 0x6B8), (0x76A, 0x76A), (0x8A6, 0x8A6), (0x8C7, 0x8C7)] c

/-- Marks between Arabic letters that do not keep them apart. -/
def isBridged (c : Char) : Bool := within zeroRanges c && !within separatingRanges c

/-- Tifinagh consonants. -/
def isTifinaghConsonant (c : Char) : Bool := within [(0x2D31, 0x2D65), (0x2D6F, 0x2D6F)] c

/-- Lisu tone letters that another one may follow. -/
def isFirstTone (c : Char) : Bool := within [(0xA4F8, 0xA4FB)] c

/-- Lisu tone letters that may follow another one. -/
def isSecondTone (c : Char) : Bool := within [(0xA4FC, 0xA4FD)] c

/-- Khmer letters that have a form below the letter in front of them. -/
def isSubscribed (c : Char) : Bool :=
  within [(0x1780, 0x1782), (0x1784, 0x1787), (0x1789, 0x178C), (0x178E, 0x1793),
    (0x1795, 0x1798), (0x179B, 0x179D), (0x17A0, 0x17A0), (0x17A2, 0x17A2), (0x17A7, 0x17A7),
    (0x17AB, 0x17AC), (0x17AF, 0x17AF)] c

end ConfigScript.Format
