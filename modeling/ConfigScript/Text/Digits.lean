/-!
# Digits and numerals

The value of a digit in a radix up to 36, and the natural number that a numeral denotes in
positional notation.
-/

namespace ConfigScript.Text

/-- The value of `c` as a digit in some radix up to 36, letters in either case. -/
def digitValue (c : Char) : Option Nat :=
  if '0' ≤ c && c ≤ '9' then some (c.toNat - '0'.toNat)
  else if 'a' ≤ c && c ≤ 'z' then some (c.toNat - 'a'.toNat + 10)
  else if 'A' ≤ c && c ≤ 'Z' then some (c.toNat - 'A'.toNat + 10)
  else none

/-- The value of `c` as a digit of `radix`, if it is one. -/
def digitIn (radix : Nat) (c : Char) : Option Nat :=
  (digitValue c).filter (· < radix)

/-- Whether `c` is a digit of `radix`. -/
def isDigitIn (radix : Nat) (c : Char) : Bool := (digitIn radix c).isSome

/-- The number that a list of digit values denotes in `radix`, most significant digit first. -/
def ofDigitValues (radix : Nat) (ds : List Nat) : Nat :=
  ds.foldl (fun acc d => acc * radix + d) 0

/-- The number that `cs` denotes in `radix`; `none` unless `cs` is a non-empty list of digits. -/
def numeral? (radix : Nat) (cs : List Char) : Option Nat :=
  if cs.isEmpty then none else (cs.mapM (digitIn radix)).map (ofDigitValues radix)

/-- A hexadecimal digit in lower case; `'0'` from sixteen on. -/
def hexDigit (n : Nat) : Char :=
  if n < 10 then Char.ofNat ('0'.toNat + n)
  else if n < 16 then Char.ofNat ('a'.toNat + (n - 10))
  else '0'

/-- Lower-case hexadecimal notation without leading zeros. -/
def hex (n : Nat) : List Char :=
  if n < 16 then [hexDigit n] else hex (n / 16) ++ [hexDigit (n % 16)]
termination_by n
decreasing_by omega

/-- Lower-case hexadecimal notation filled with zeros up to `width` digits. -/
def hexPadded (width n : Nat) : List Char :=
  let ds := hex n
  List.replicate (width - ds.length) '0' ++ ds

@[simp]
theorem ofDigitValues_nil (radix : Nat) : ofDigitValues radix [] = 0 := rfl

end ConfigScript.Text
