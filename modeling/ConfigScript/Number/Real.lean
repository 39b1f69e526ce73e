import ConfigScript.Number.Rounding
import ConfigScript.Number.Shortest

/-!
# Doubles and integers

A finite double is a rational number. This module gives its integer part, exactly, and the double
nearest to an integer.
-/

namespace ConfigScript.Number

/-- Sign, significand and exponent of a finite double, whose value is
`± significand * 2 ^ exponent`. -/
def parts (x : Float) : Bool × Nat × Int :=
  let bits := x.toBits
  let b := Binary.ofBits (bits &&& 0x7FFFFFFFFFFFFFFF)
  (bits >>> 63 != 0, b.significand, b.exponent)

/-- The integer part of a finite double, rounded toward zero. -/
def truncate (x : Float) : Int :=
  let (negative, m, e) := parts x
  let magnitude : Nat := match e with
    | .ofNat k => m <<< k
    | .negSucc k => m >>> (k + 1)
  if negative then -(magnitude : Int) else magnitude

/-- Whether a finite double is an integer. -/
def isWhole (x : Float) : Bool :=
  match parts x with
  | (_, m, .negSucc k) => m % (1 <<< (k + 1)) == 0
  | _ => true

/-- The double nearest to an integer. -/
def ofInt (n : Int) : Float :=
  let bits := nearestBits n.natAbs 1
  Float.ofBits (if n < 0 then bits ||| 0x8000000000000000 else bits)

/-- The machine integer nearest to an integer: integers beyond the range become its ends. -/
def clamp (n : Int) : Int64 :=
  if n < Int64.minValue.toInt then Int64.minValue
  else if Int64.maxValue.toInt < n then Int64.maxValue
  else Int64.ofInt n

/-- A finite double as a machine integer. -/
def toInt64 (x : Float) : Int64 := clamp (truncate x)

end ConfigScript.Number
