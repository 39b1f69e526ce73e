/-!
# Rounding to double precision

A positive rational number is rounded to the nearest double: first the binary exponent is fixed so
that the quotient has 53 bits (fewer only at the smallest exponent), then the quotient is rounded,
a tie going to the even neighbour. A quotient that rounding carries to 54 bits is the next power of
two, which the addition of exponent and significand yields by itself.
-/

namespace ConfigScript.Number

/-- The quotient `num / den` rounded to the nearest natural number, a tie to the even one. -/
def roundHalfEven (num den : Nat) : Nat :=
  let q := num / den
  let twice := 2 * (num % den)
  if twice < den then q
  else if den < twice then q + 1
  else if q % 2 = 0 then q else q + 1

/-- `num / den` divided by `2 ^ e`, as a fraction. -/
def scaleBinary (num den : Nat) (e : Int) : Nat × Nat :=
  match e with
  | .ofNat k => (num, den <<< k)
  | .negSucc k => (num <<< (k + 1), den)

/-- The exponent `e` with `2 ^ 52 ≤ num / den / 2 ^ e < 2 ^ 53`. -/
def binaryExponent (num den : Nat) : Int :=
  let e : Int := (num.log2 : Int) - (den.log2 : Int) - 52
  let (n, d) := scaleBinary num den e
  if n < d <<< 52 then e - 1 else e

/-- The smallest exponent of a double. -/
def minExponent : Int := -1074

/-- The largest exponent of a double. -/
def maxExponent : Int := 971

/-- The leading bit of 53: significands from here on belong to doubles with an exponent of their
own choice, smaller ones to the doubles with the smallest exponent. -/
def leadingBit : Nat := 0x10000000000000

/-- The bits of positive infinity. -/
def infinityBits : Nat := 0x7FF0000000000000

/-- The bits of the double nearest to `num / den`. -/
def nearestBits (num den : Nat) : UInt64 :=
  if num = 0 || den = 0 then 0
  else
    let e := max (binaryExponent num den) minExponent
    if maxExponent < e then UInt64.ofNat infinityBits
    else
      let (n, d) := scaleBinary num den e
      let significand := roundHalfEven n d
      UInt64.ofNat (min infinityBits ((e - minExponent).toNat * leadingBit + significand))

end ConfigScript.Number
