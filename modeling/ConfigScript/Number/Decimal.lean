import ConfigScript.Text.Digits
import ConfigScript.Number.Rounding

/-!
# Decimal fractions

A decimal fraction is a natural number times a power of ten, with a sign. It is read from the usual
notation (digits with an optional point and an optional exponent) and rounded to the nearest double.
-/

namespace ConfigScript

/-- The number `± digits * 10 ^ exponent`. -/
structure Decimal where
  negative : Bool
  digits : Nat
  exponent : Int
deriving DecidableEq, Repr

namespace Decimal

/-- Split off a sign; `true` stands for minus. -/
def takeSign : List Char → Bool × List Char
  | '-' :: cs => (true, cs)
  | '+' :: cs => (false, cs)
  | cs => (false, cs)

/-- The number that decimal digits denote. -/
def natOf (cs : List Char) : Nat :=
  Text.ofDigitValues 10 (cs.map fun c => c.toNat - '0'.toNat)

/-- Read a whole exponent, without its letter. -/
def parseExponent? (cs : List Char) : Option Int :=
  let (negative, ds) := takeSign cs
  if ds.isEmpty || !ds.all Char.isDigit then none
  else some (if negative then -(natOf ds : Int) else natOf ds)

/-- Read a whole text: an optional sign, digits with at most one point among or around them, and an
optional exponent. -/
def parse? (cs : List Char) : Option Decimal :=
  let (negative, cs) := takeSign cs
  let whole := cs.takeWhile Char.isDigit
  let rest := cs.dropWhile Char.isDigit
  let (fraction, rest) := match rest with
    | '.' :: r => (r.takeWhile Char.isDigit, r.dropWhile Char.isDigit)
    | r => ([], r)
  if whole.isEmpty && fraction.isEmpty then none
  else
    let exponent? := match rest with
      | [] => some 0
      | 'e' :: r => parseExponent? r
      | 'E' :: r => parseExponent? r
      | _ => none
    exponent?.map fun e => ⟨negative, natOf (whole ++ fraction), e - fraction.length⟩

/-- The number of decimal digits of `n`. -/
def digitCount (n : Nat) : Nat := (Nat.toDigits 10 n).length

/-- The bits of the nearest double without the sign. Beyond the range of doubles the result is
known from the number of digits. -/
def magnitudeBits (d : Decimal) : UInt64 :=
  if d.digits = 0 then 0
  else
    let magnitude : Int := d.exponent + digitCount d.digits
    if 400 < magnitude then UInt64.ofNat Number.infinityBits
    else if magnitude < -400 then 0
    else match d.exponent with
      | .ofNat k => Number.nearestBits (d.digits * Nat.pow 10 k) 1
      | .negSucc k => Number.nearestBits d.digits (Nat.pow 10 (k + 1))

/-- The nearest double. -/
def toFloat (d : Decimal) : Float :=
  Float.ofBits (if d.negative then d.magnitudeBits ||| 0x8000000000000000 else d.magnitudeBits)

/-- The double that a text denotes in decimal notation. -/
def float? (cs : List Char) : Option Float := (parse? cs).map toFloat

end Decimal

end ConfigScript
