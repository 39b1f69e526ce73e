import ConfigScript.Format.CharWidth

/-!
# Display width

How many columns of a terminal a text takes. Where characters are shown together, as one picture or
as one letter, what they take depends on what stands behind them. So the text is read from its end:
a `Context` holds what matters of the characters that were read, and `step` says what a character
adds in front of them.

Selectors ask for the character in front of them to be shown as a picture or as a plain sign. They
are kept in the context until that character is reached.
-/

namespace ConfigScript.Format

/-- A letter that can be shown as one with the letters in front of it, together with those of them
that were read. -/
inductive Ligature where
  /-- The Hebrew lamed. -/
  | lamed
  /-- The Buginese ya. -/
  | ya
  /-- The Buginese vowel sign i and a ya. -/
  | signAndYa
  /-- A Tifinagh consonant. -/
  | consonant
  /-- The Tifinagh joiner and a consonant. -/
  | joinerAndConsonant
  /-- The second of two Lisu tone letters. -/
  | tone
  /-- The Old Turkic letter i. -/
  | orkhon
  /-- A Khmer letter that has a form below another one. -/
  | subscribed
deriving DecidableEq, Repr

/-- What stands behind a place of a text, as far as it can be shown as one with the character
there. -/
inductive Sequel where
  /-- Nothing of interest. -/
  | nothing
  | lineFeed
  | picture
  | colour
  | flagLetter
  | flagLetters
  /-- A joiner and a picture. -/
  | joinedPicture
  /-- A key cap, a joiner and a picture. -/
  | joinedKey
  /-- One letter of a flag, a joiner and a picture. -/
  | joinedFlagLetter
  /-- Flags, a joiner and a picture. -/
  | joinedFlags
  /-- One more letter in front of such flags. -/
  | joinedFlagsAndLetter
  /-- Tags at the end of a flag that is joined to a picture: some letters, and digits in front. -/
  | joinedTags (letters digits : Nat)
  /-- The Kirat Rai vowel sign e. -/
  | signE
  /-- The Kirat Rai vowel sign ai. -/
  | signAi
  | alef
  /-- A part of a ligature; `joined` says that a joiner stands in front of it. -/
  | letter (l : Ligature) (joined : Bool)
deriving DecidableEq, Repr

/-- What stands behind a place of a text, and which selectors in front of it are pending. -/
structure Context where
  sequel : Sequel
  /-- The character is to be shown as a picture. -/
  asPicture : Bool
  /-- The character is to be shown as a plain sign. -/
  asSign : Bool
  /-- The columns that a quotation mark is to take. -/
  quoteWidth? : Option Nat
deriving DecidableEq, Repr

namespace Sequel

/-- The context of a sequel without selectors. -/
def context (s : Sequel) : Context := ⟨s, false, false, none⟩

/-- Whether the sequel is a letter, which selectors in front of it leave as it is. -/
def isLetter : Sequel → Bool
  | alef | letter .. => true
  | _ => false

/-- Whether a picture in front is joined to what is shown already. -/
def isJoined : Sequel → Bool
  | joinedPicture | joinedKey => true
  | _ => false

/-- What a single character is to the character in front of it. -/
def ofChar (c : Char) : Sequel :=
  if isColour c then colour
  else if isFlagLetter c then flagLetter
  else if isPicture c then picture
  else if isAlef c then alef
  else if isTifinaghConsonant c then letter .consonant false
  else if isSecondTone c then letter .tone false
  else if isSubscribed c then letter .subscribed false
  else match c.toNat with
    | 0x05DC => letter .lamed false
    | 0x1A10 => letter .ya false
    | 0x10C03 => letter .orkhon false
    | 0x16D67 => signE
    | 0x16D68 => signAi
    | _ => nothing

end Sequel

/-! ### Selectors -/

namespace Context

/-- Nothing behind. -/
def empty : Context := Sequel.nothing.context

/-- A selector for pictures in front. It does not part letters, nor pictures that are joined. -/
def selectPicture (x : Context) : Context :=
  if x.sequel.isLetter || x.sequel.isJoined then { x with asPicture := true }
  else { empty with asPicture := true }

/-- A selector for plain signs in front. It does not part letters. -/
def selectSign (x : Context) : Context :=
  if x.sequel.isLetter then { x with asSign := true } else { empty with asSign := true }

/-- The selector for pictures has met a character that it does not change. -/
def dropPicture (x : Context) : Context :=
  if !x.asPicture then x
  else if x.sequel.isLetter then { x with asPicture := false }
  else empty

end Context

/-! ### Signs of several characters -/

/-- The columns that `c` adds to a part of a ligature, if it is a part of it too. -/
def Ligature.extend? (l : Ligature) (joined : Bool) (c : Char) : Option (Int × Sequel) :=
  match l with
  | lamed => if joined && c.toNat == 0x05D0 then some (0, .nothing) else none
  | ya => if joined && c.toNat == 0x1A17 then some (0, .letter signAndYa true) else none
  | signAndYa => if c.toNat == 0x1A15 then some (0, .nothing) else none
  | consonant =>
    if c.toNat == 0x2D7F then some (1, .letter joinerAndConsonant true)
    else if joined && isTifinaghConsonant c then some (0, .nothing)
    else none
  -- The joiner was counted, but between two consonants neither it nor the first takes a column.
  | joinerAndConsonant => if isTifinaghConsonant c then some (-1, .nothing) else none
  | tone => if isFirstTone c then some (0, .nothing) else none
  | orkhon => if joined && c.toNat == 0x10C32 then some (0, .nothing) else none
  -- The letter was counted, but below another one it takes no column.
  | subscribed => if c.toNat == 0x17D2 then some (-1, .nothing) else none

/-- The columns that `c` adds to a joiner and a picture behind it, if it is joined to that. -/
def joinPicture? (c : Char) : Option (Int × Sequel) :=
  if c.toNat == 0x20E3 then some (0, .joinedKey)
  else if isFlagLetter c then some (1, .joinedFlagLetter)
  else if isColour c then some (0, .colour)
  else if c.toNat == 0xE007F then some (0, .joinedTags 0 0)
  else if isPicture c then some (0, .picture)
  else none

/-- The columns that `c` adds to the tags of a flag, if they go on. The tags spell up to six
letters, or three digits behind which there are at most four letters. -/
def extendTags? (letters digits : Nat) (c : Char) : Option (Int × Sequel) :=
  if isTagLetter c && digits == 0 && letters < 6 then some (0, .joinedTags (letters + 1) 0)
  else if isTagDigit c && digits < 3 && letters < 5 then
    some (0, .joinedTags letters (digits + 1))
  else if isTagged c && (digits == 3 || (digits == 0 && 3 ≤ letters)) then some (0, .picture)
  else none

/-- The columns that `c` adds to what stands behind it, if it is shown as one with that. -/
def Sequel.extend? (s : Sequel) (c : Char) : Option (Int × Sequel) :=
  let isJoiner := c == '\u200d'
  match s with
  | nothing | lineFeed | joinedKey => none
  | picture => if isJoiner then some (0, joinedPicture) else none
  | colour =>
    if isColourable c then some (0, picture)
    else if isJoiner then some (0, joinedPicture)
    else none
  | flagLetter => if isFlagLetter c then some (1, flagLetters) else none
  | flagLetters =>
    if isFlagLetter c then some (1, flagLetters)
    else if isJoiner then some (0, joinedPicture)
    else none
  | joinedPicture => joinPicture? c
  | joinedFlagLetter => if isFlagLetter c then some (-1, joinedFlags) else none
  | joinedFlags =>
    if isFlagLetter c then some (3, joinedFlagsAndLetter)
    else if isJoiner then some (0, joinedPicture)
    else none
  | joinedFlagsAndLetter =>
    if isFlagLetter c then some (-1, joinedFlags)
    else if isJoiner then some (0, joinedPicture)
    else none
  | joinedTags letters digits => extendTags? letters digits c
  | signE =>
    match c.toNat with
    | 0x16D63 | 0x16D69 => some (0, nothing)
    | 0x16D67 => some (0, signAi)
    | 0x16D68 => some (1, signE)
    | _ => none
  | signAi => if c.toNat == 0x16D63 then some (0, nothing) else none
  | alef =>
    if isLam c then some (0, nothing) else if isBridged c then some (0, alef) else none
  | letter l joined =>
    if isJoiner then some (0, letter l true)
    else if isInvisibleMark c then some (0, s)
    else l.extend? joined c

/-! ### Texts -/

/-- The columns of a character that is shown by itself, and the context in front of it. -/
def alone (c : Char) : Int × Context :=
  (charWidth c,
    match selectedWidth? c with
    | some w => { Context.empty with quoteWidth? := some w }
    | none => (Sequel.ofChar c).context)

/-- The columns of one of the first characters, and the context in front of it. A line feed and the
carriage return in front of it count once. -/
def basic (c : Char) (behind : Sequel) : Int × Context :=
  if c == '\n' then (1, Sequel.lineFeed.context)
  else if c == '\r' && behind == .lineFeed then (0, .empty)
  else (1, .empty)

/-- The columns that a character adds, and the context in front of it. -/
def step (c : Char) (x : Context) : Int × Context :=
  if x.asPicture && isSelectable c then
    (if x.sequel.isJoined then 0 else 2, Sequel.picture.context)
  else
    let x := x.dropPicture
    if c.toNat ≤ 0xA0 then basic c x.sequel
    else if c == '\ufe0f' then (0, x.selectPicture)
    else if c == '\ufe0e' then (0, x.selectSign)
    else if x.asSign && isFlattened c then (1, .empty)
    else match x.quoteWidth?, isQuotationMark c with
      | some w, true => (w, .empty)
      | _, _ =>
        match x.sequel.extend? c with
        | some (w, s) => (w, s.context)
        | none => alone c

/-- The columns of a text, and the context in front of it. -/
def measure : List Char → Int × Context
  | [] => (0, .empty)
  | c :: r =>
    let (n, x) := measure r
    let (w, x) := step c x
    (w + n, x)

/-- The columns of a text. -/
def width (cs : List Char) : Nat := (measure cs).1.toNat

end ConfigScript.Format
