import ConfigScript.Number.Decimal
import ConfigScript.Number.Integer
import ConfigScript.Script.Fault
import ConfigScript.Script.Token

/-!
# Number literals

Integers are written in decimal, hexadecimal (`0x`), binary (`0b`) or octal notation (`0o`, or a
leading zero), with underscores anywhere behind the first digit. An integer beyond 64 bits is a
float, and so is a decimal literal with a point or an exponent.
-/

namespace ConfigScript.Script

/-- The radix that the character behind a leading zero announces. -/
def announcedRadix? (c : Char) : Option Nat :=
  if c == 'x' || c == 'X' then some 16
  else if c == 'b' || c == 'B' then some 2
  else if c == 'o' || c == 'O' then some 8
  else none

/-- Whether an exponent goes on with this text: a digit, or a sign and a digit. -/
def startsExponent : List Char → Bool
  | c :: r => c.isDigit || ((c == '+' || c == '-') && r.head?.any Char.isDigit)
  | [] => false

/-- What follows a decimal literal, and whether the literal has a point or an exponent. A second
point ends the literal, and so does a point in front of another one. -/
def afterDecimal (isFloat : Bool) : List Char → Bool × List Char
  | [] => (isFloat, [])
  | c :: r =>
    if c.isDigit || c == '_' then afterDecimal isFloat r
    else if c == '.' && !isFloat && r.head? != some '.' then afterDecimal true r
    else if (c == 'e' || c == 'E') && startsExponent r then
      match r with
      | [] => (true, [])
      | _ :: r => afterDecimal true r
    else (isFloat, c :: r)

/-- A text without its underscores. -/
def withoutUnderscores (cs : List Char) : List Char := cs.filter (· != '_')

/-- The float that digits denote in `radix` when the sum is rounded digit by digit. Characters that
are no digits of the radix are skipped. -/
def radixFloat (radix : Nat) (ds : List Char) : Float :=
  (ds.filterMap (Text.digitIn radix)).foldl
    (fun acc d => acc * Float.ofNat radix + Float.ofNat d) 0

/-- The number that digits denote in `radix`: an integer if it fits, else a float. -/
def radixNumber (radix : Nat) (ds : List Char) : TokenKind :=
  match (Text.numeral? radix ds).bind fun n => Integer.fit? n with
  | some i => .int i
  | none => .float (radixFloat radix ds)

/-- The number that the text of a decimal literal denotes, underscores removed. A text that is no
number, such as one with two exponents, is zero. -/
def decimalNumber (isFloat : Bool) (text : List Char) : TokenKind :=
  if isFloat then .float ((Decimal.float? text).getD 0)
  else match text with
    | '0' :: d :: ds => radixNumber 8 (d :: ds)
    | _ =>
      match Integer.parse? text with
      | some i => .int i
      | none =>
        .float ((Decimal.float? text).getD (Float.ofBits (UInt64.ofNat Number.infinityBits)))

/-- Whether `c` may stand in a literal with an announced radix. -/
def isRadixChar (radix : Nat) (c : Char) : Bool := c == '_' || Text.isDigitIn radix c

/-- A literal in decimal notation that begins with `c`. -/
def decimalLiteral (c : Char) (r : List Char) : TokenKind × List Char :=
  let (isFloat, rest) := afterDecimal (c == '.') r
  let text := (c :: r).take ((c :: r).length - rest.length)
  (decimalNumber isFloat (withoutUnderscores text), rest)

/-- A number literal that begins with `c`, and what follows it. -/
def number (c : Char) (r : List Char) : Except Fault (TokenKind × List Char) :=
  match c, r with
  | '0', x :: s =>
    match announcedRadix? x with
    | some radix =>
      let ds := withoutUnderscores (s.takeWhile (isRadixChar radix))
      if ds.isEmpty then .error (.unexpectedCharacter '0')
      else .ok (radixNumber radix ds, s.dropWhile (isRadixChar radix))
    | none => .ok (decimalLiteral c r)
  | _, _ => .ok (decimalLiteral c r)

/-- What is left behind decimal digits is the end of the text. -/
theorem afterDecimal_suffix (isFloat : Bool) (cs : List Char) :
    (afterDecimal isFloat cs).2 <:+ cs := by
  fun_induction afterDecimal isFloat cs with
  | case1 => exact List.suffix_refl _
  | case2 _ c r _ ih => exact ih.trans (List.suffix_cons c r)
  | case3 _ c r _ _ ih => exact ih.trans (List.suffix_cons c r)
  | case4 _ c => exact List.nil_suffix
  | case5 _ c _ d r _ _ ih =>
    exact ih.trans ((List.suffix_cons d r).trans (List.suffix_cons c (d :: r)))
  | case6 => exact List.suffix_refl _

/-- What is left behind a number is the end of the text, for each way to write one. -/
theorem number_suffix {c : Char} {r rest : List Char} {kind : TokenKind}
    (h : number c r = .ok (kind, rest)) : rest <:+ r := by
  have decimal : ∀ {c r kind rest}, decimalLiteral c r = (kind, rest) → rest <:+ r := by
    intro c r kind rest h
    injection h with _ h
    exact h ▸ afterDecimal_suffix _ r
  unfold number at h
  split at h
  · split at h
    · dsimp only at h
      split at h
      · cases h
      · injection h with h
        injection h with _ h
        exact h ▸ (List.dropWhile_suffix _).trans (List.suffix_cons _ _)
    · injection h with h
      exact decimal h
  · injection h with h
    exact decimal h

end ConfigScript.Script
