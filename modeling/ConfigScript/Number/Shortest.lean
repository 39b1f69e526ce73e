import ConfigScript.Number.Decimal

/-!
# Shortest decimal text of a double

The text of a double has the fewest digits that read back as the same double, and of the texts with
that many digits it is the one nearest to the double. The digits are found grid by grid: for one,
two, … seventeen digits, the neighbours of the double on the grid of decimals with that many digits
are tested against the interval of reals that round to the double. The interval's ends belong to it
exactly if the significand is even.

How the digits are laid out is data, a `Layout`.
-/

namespace ConfigScript.Number

/-- Which of two decimals equally near to a double is taken. -/
inductive Tie where
  | up
  | even
deriving DecidableEq, Repr

/-- The finite double `significand * 2 ^ exponent`, with the interval that rounds to it: from
`lower` to `upper`, in units of a quarter of `2 ^ exponent`. -/
structure Binary where
  significand : Nat
  exponent : Int
  lower : Nat
  upper : Nat
deriving Repr

/-- Take the magnitude of a finite double apart. Below a power of two the next double is half as
far away as above it. -/
def Binary.ofBits (bits : UInt64) : Binary :=
  let biased := (bits >>> 52).toNat % 2048
  let fraction := bits.toNat % leadingBit
  -- The smallest doubles have no leading bit.
  if biased = 0 then ⟨fraction, minExponent, 4 * fraction - 2, 4 * fraction + 2⟩
  else
    let m := fraction + leadingBit
    let low := if fraction = 0 && 1 < biased then 4 * m - 1 else 4 * m - 2
    ⟨m, (biased : Int) - 1075, low, 4 * m + 2⟩

namespace Binary

/-- `n` quarters of `2 ^ exponent`, divided by `10 ^ k`, as a fraction. -/
def overPower (b : Binary) (k : Int) (n : Nat) : Nat × Nat :=
  let e := b.exponent - 2
  ((n <<< e.toNat) * Nat.pow 10 (-k).toNat, Nat.pow 10 k.toNat <<< (-e).toNat)

/-- Whether the decimal `d * 10 ^ k` rounds to the double. -/
def covers (b : Binary) (k : Int) (d : Nat) : Bool :=
  let (low, den) := b.overPower k b.lower
  let (high, _) := b.overPower k b.upper
  if b.significand % 2 = 0 then low ≤ d * den && d * den ≤ high
  else low < d * den && d * den < high

/-- The exponent `e` with `10 ^ (e - 1) ≤ value < 10 ^ e`. -/
def decimalExponent (b : Binary) : Int :=
  let guess : Int := ((b.significand.log2 : Int) + b.exponent) * 30103 / 100000
  let below (e : Int) : Bool :=
    let (n, d) := b.overPower e (4 * b.significand)
    n < d
  if below guess then guess else if below (guess + 1) then guess + 1 else guess + 2

/-- The neighbour of the double on the grid of multiples of `10 ^ k` that rounds to it, the nearer
one if both do. -/
def onGrid? (b : Binary) (tie : Tie) (k : Int) : Option Nat :=
  let (n, den) := b.overPower k (4 * b.significand)
  let d := n / den
  let twice := 2 * (n % den)
  match b.covers k d, b.covers k (d + 1) with
  | true, true =>
    if twice < den then some d
    else if den < twice then some (d + 1)
    else if tie = .even && d % 2 = 0 then some d else some (d + 1)
  | true, false => some d
  | false, true => some (d + 1)
  | false, false => none

/-- The first grid with a hit, coarse grids first; `n` more grids are tried. -/
def search (b : Binary) (tie : Tie) (k : Int) : Nat → Nat × Int
  -- Not reached: some decimal with seventeen digits always rounds to the double.
  | 0 => (b.significand, b.exponent)
  | n + 1 =>
    match b.onGrid? tie k with
    | some d => (d, k)
    | none => search b tie (k - 1) n

end Binary

/-- Move trailing zeros of `d` into the exponent. -/
def stripZeros (d : Nat) (k : Int) : Nat × Int :=
  if h : d ≠ 0 ∧ d % 10 = 0 then stripZeros (d / 10) (k + 1) else (d, k)
termination_by d
decreasing_by omega

/-- Shortest digits and exponent of the magnitude of a finite double other than zero. -/
def shortest (tie : Tie) (bits : UInt64) : Nat × Int :=
  let b := Binary.ofBits bits
  let (d, k) := b.search tie (b.decimalExponent - 1) 17
  stripZeros d k

/-- How the digits of a double are written. Positional notation is used when the exponent of the
first digit lies between the two bounds, scientific notation otherwise. -/
structure Layout where
  tie : Tie
  /-- Least and greatest exponent in positional notation; `none` for positional notation always. -/
  positional : Option (Int × Int)
  /-- Whether an integer in positional notation ends in `.0`. -/
  pointZero : Bool
  /-- Whether a positive exponent has a plus sign. -/
  plusSign : Bool
deriving Repr

namespace Layout

/-- `d * 10 ^ k` without an exponent. -/
def positionalText (l : Layout) (d : Nat) (k : Int) : String :=
  let ds := Nat.toDigits 10 d
  match k with
  | .ofNat k => String.ofList (ds ++ List.replicate k '0') ++ (if l.pointZero then ".0" else "")
  | .negSucc k =>
    let places := k + 1
    if places < ds.length then
      String.ofList (ds.take (ds.length - places) ++ '.' :: ds.drop (ds.length - places))
    else "0." ++ String.ofList (List.replicate (places - ds.length) '0' ++ ds)

/-- `d * 10 ^ k` with one digit before the point, and an exponent. -/
def scientificText (l : Layout) (d : Nat) (k : Int) : String :=
  let ds := Nat.toDigits 10 d
  let e := k + ds.length - 1
  let sign := if 0 ≤ e && l.plusSign then "+" else ""
  let digits := match ds with
    | c :: [] => String.ofList [c]
    | c :: cs => String.ofList (c :: '.' :: cs)
    | [] => "0"
  digits ++ "e" ++ sign ++ toString e

/-- The text of a finite double. -/
def render (l : Layout) (x : Float) : String :=
  let bits := x.toBits
  let sign := if bits >>> 63 = 0 then "" else "-"
  let magnitude := bits &&& 0x7FFFFFFFFFFFFFFF
  if magnitude = 0 then sign ++ l.positionalText 0 0
  else
    let (d, k) := shortest l.tie magnitude
    let e := k + (Nat.toDigits 10 d).length - 1
    let positional := match l.positional with
      | none => true
      | some (least, greatest) => least ≤ e && e ≤ greatest
    sign ++ (if positional then l.positionalText d k else l.scientificText d k)

end Layout

end ConfigScript.Number
