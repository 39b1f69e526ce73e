/-!
# Random keys

Keys are drawn from a stream of random bytes, which is delivered in blocks of 64 and may run dry. A
byte picks a character of the alphabet by its remainder; bytes that would favour some characters are
left out. Every key begins with a new block.
-/

namespace ConfigScript.Salt

/-- The characters of keys. -/
def alphabet : List Char :=
  "abcdefghijklmnopqrstuvwxyzABCDEFGHIJKLMNOPQRSTUVWXYZ0123456789".toList ++
    "!@#$%^&*()-_[]\x7b\x7d<>~".toList ++ '\x60' :: "+=,.;:/?|".toList

/-- The number of bytes in a block. -/
def blockSize : Nat := 64

/-- A source of random bytes. -/
structure Entropy where
  /-- The bytes in the order in which they are delivered. -/
  byte : Nat → UInt8
  /-- The number of blocks that were delivered. -/
  served : Nat
  /-- The number of blocks that can still be delivered. -/
  supply : Nat
  /-- Why no block can be delivered when the supply is at its end. -/
  reason : String

namespace Entropy

/-- The next block. -/
def block (e : Entropy) : List UInt8 :=
  (List.range blockSize).map fun i => e.byte (blockSize * e.served + i)

/-- The source behind the next block. -/
def consume (e : Entropy) : Entropy := { e with served := e.served + 1, supply := e.supply - 1 }

end Entropy

/-- The character that a byte picks; `none` from the greatest multiple of the alphabet's size on. -/
def character? (b : UInt8) : Option Char :=
  if b.toNat < 256 / alphabet.length * alphabet.length then alphabet[b.toNat % alphabet.length]?
  else none

/-- Draw `length` characters; `none` if the source runs dry. -/
def draw (length : Nat) (e : Entropy) : Option (List Char) × Entropy :=
  if length = 0 then (some [], e)
  else if h : e.supply = 0 then (none, e)
  else
    let drawn := (e.block.filterMap character?).take length
    have : e.consume.supply < e.supply := by simp only [Entropy.consume]; omega
    match draw (length - drawn.length) e.consume with
    | (some rest, e') => (some (drawn ++ rest), e')
    | (none, e') => (none, e')
termination_by e.supply

/-- Draw keys of the given lengths, up to the first that fails. -/
def drawAll : List Nat → Entropy → Option (List (List Char)) × Entropy
  | [], e => (some [], e)
  | n :: ns, e =>
    match draw n e with
    | (none, e) => (none, e)
    | (some key, e) =>
      match drawAll ns e with
      | (some keys, e) => (some (key :: keys), e)
      | (none, e) => (none, e)

theorem alphabet_length : alphabet.length = 91 := by decide +kernel

end ConfigScript.Salt
