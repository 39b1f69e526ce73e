import ConfigScript.Text.Digits

/-!
# Machine integers

Integers of the script language have 64 bits. An operation is exact when its mathematical result is
such an integer; `Integer.fit?` says so, and the checked operations are defined through it.
-/

namespace ConfigScript.Integer

/-- The machine integer with the value `n`, if there is one. -/
def fit? (n : Int) : Option Int64 :=
  if -0x8000000000000000 ≤ n ∧ n < 0x8000000000000000 then some (Int64.ofInt n) else none

/-- The machine integer that a signed decimal numeral denotes. -/
def parse? (cs : List Char) : Option Int64 :=
  match cs with
  | '-' :: ds => (Text.numeral? 10 ds).bind fun n => fit? (-(n : Int))
  | '+' :: ds => (Text.numeral? 10 ds).bind fun n => fit? n
  | ds => (Text.numeral? 10 ds).bind fun n => fit? n

/-- Decimal notation. -/
def render (n : Int64) : String := toString n.toInt

/-- The power `a ^ n` if it fits. From exponent 64 on only the bases -1, 0 and 1 have powers that
fit, and these depend on the parity of the exponent alone. -/
def pow? (a : Int64) (n : Nat) : Option Int64 :=
  if n < 64 then fit? (Int.pow a.toInt n)
  else if a = 0 || a = 1 then some a
  else if a = -1 then some (if n % 2 = 0 then 1 else -1)
  else none

/-- A number that fits is the integer. -/
theorem fit?_eq_some {n : Int} {i : Int64} (h : fit? n = some i) : i.toInt = n := by
  unfold fit? at h
  split at h
  · rename_i range
    injection h with h
    subst h
    exact Int64.toInt_ofInt_of_le (by omega) (by omega)
  · cases h

end ConfigScript.Integer
