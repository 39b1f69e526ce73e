import ConfigScript.Proofs.Number.Double
import ConfigScript.Proofs.Value.Key
import ConfigScript.Value.Arithmetic
import Mathlib

/-!
# Integer arithmetic

The result of an operation on integers is exact, or it is a double (`Exact`): a sum, a difference, a
product, a quotient without a remainder, a power and a negative is an integer just if the machine has it.
Remainders have the sign of the dividend (`IsRemainder`), and shifts are those of two's complement.
-/

namespace ConfigScript

/-! ### Machine integers -/

namespace Integer

/-- The machine has the integer. -/
def Fits (n : Int) : Prop := -2 ^ 63 ≤ n ∧ n < 2 ^ 63

variable {n : Int}

theorem fits_toInt (a : Int64) : Fits a.toInt := ⟨Int64.le_toInt a, Int64.toInt_lt a⟩

theorem fit?_eq_none (h : ¬Fits n) : fit? n = none := if_neg fun range ↦ h ⟨range.1, range.2⟩

theorem not_fits (h : fit? n = none) : ¬Fits n := by
  intro fits
  rw [fit?, if_pos ⟨fits.1, fits.2⟩] at h
  cases h

theorem fit?_eq_some_iff {k : Int64} : fit? n = some k ↔ k.toInt = n :=
  ⟨fit?_eq_some, fun h ↦ h ▸ fit?_toInt k⟩

/-- Powers of other bases than -1, 0 and 1 leave the machine integers. -/
theorem not_fits_pow {a : Int} {n : Nat} (base : 2 ≤ a.natAbs) (large : 64 ≤ n) : ¬Fits (a ^ n) := by
  have grows : 2 ^ 64 ≤ (a ^ n).natAbs := by
    rw [Int.natAbs_pow]
    calc 2 ^ 64 ≤ 2 ^ n := Nat.pow_le_pow_right (by decide) large
      _ ≤ a.natAbs ^ n := Nat.pow_le_pow_left base n
  rintro ⟨lower, upper⟩
  omega

/-- The checked power is the exact one, if that fits. From exponent 64 on this depends on the base: the powers
of 0 and 1 are these bases, those of -1 alternate, and all others are too large. -/
theorem pow?_eq (a : Int64) (n : Nat) : pow? a n = fit? (a.toInt ^ n) := by
  unfold pow?
  split
  · rfl
  rename_i few
  have large : 64 ≤ n := Nat.le_of_not_lt few
  split
  · rename_i unit
    rw [Bool.or_eq_true, decide_eq_true_iff, decide_eq_true_iff] at unit
    rcases unit with rfl | rfl
    · exact (fit?_eq_some_iff.2 (zero_pow (by omega)).symm).symm
    · exact (fit?_eq_some_iff.2 (one_pow n).symm).symm
  rename_i others
  rw [Bool.or_eq_true, decide_eq_true_iff, decide_eq_true_iff, not_or] at others
  split
  · rename_i unit
    subst unit
    symm
    rw [fit?_eq_some_iff, show (-1 : Int64).toInt = -1 from rfl, neg_one_pow_eq_ite]
    simp only [Nat.even_iff]
    split <;> rfl
  · rename_i other
    refine (fit?_eq_none (not_fits_pow ?_ large)).symm
    have zero : a.toInt ≠ 0 := fun h ↦ others.1 (Int64.toInt_inj.1 h)
    have one : a.toInt ≠ 1 := fun h ↦ others.2 (Int64.toInt_inj.1 h)
    have negative : a.toInt ≠ -1 := fun h ↦ other (Int64.toInt_inj.1 h)
    omega

end Integer

/-! ### Bits -/

theorem toNat_places {n : Nat} (h : n < 64) : ((Int64.ofNat n).toBitVec.smod 64).toNat = n := by
  have all : ∀ n < 64, ((Int64.ofNat n).toBitVec.smod 64).toNat = n := by decide
  exact all n h

namespace Value

/-- A shift to the left multiplies by a power of two, within the word. -/
theorem toInt_shiftLeft {n : Nat} (a : Int64) (h : n < 64) :
    (shiftLeft a n).toInt = (a.toInt * 2 ^ n).bmod (2 ^ 64) := by
  have bits : (shiftLeft a n).toBitVec = a.toBitVec <<< n := by
    rw [shiftLeft, if_pos h, Int64.toBitVec_shiftLeft, BitVec.shiftLeft_eq', toNat_places h]
  have word : a.toInt = (a.toBitVec.toNat : Int).bmod (2 ^ 64) := BitVec.toInt_eq_toNat_bmod _
  rw [← Int64.toInt_toBitVec, bits, BitVec.toInt_shiftLeft, word, Int.bmod_mul_bmod, Nat.shiftLeft_eq]
  push_cast
  rfl

/-- A shift to the right divides by a power of two and rounds down. -/
theorem toInt_shiftRight {n : Nat} (a : Int64) (h : n < 64) :
    (shiftRight a n).toInt = a.toInt / 2 ^ n := by
  have bits : (shiftRight a n).toBitVec = a.toBitVec.sshiftRight n := by
    rw [shiftRight, if_pos h, Int64.toBitVec_shiftRight, BitVec.sshiftRight', toNat_places h]
  rw [← Int64.toInt_toBitVec, bits, BitVec.toInt_sshiftRight, Int.shiftRight_eq_div_pow]
  push_cast
  rfl

/-! ### Exact results -/

/-- What an exact computation with the result `n` yields: the integer, if the machine has it, and else a
double. -/
inductive Exact (n : Int) : Option Value → Prop
  | integer (k : Int64) (h : k.toInt = n) : Exact n (some (int k))
  | double (x : Float) (h : ¬Integer.Fits n) : Exact n (some (float x))

variable {a b k : Int64} {n : Int} {x : Float}

theorem arithmeticOf?_int (op : ArithmeticOp) (a b : Int64) :
    arithmeticOf? op (int a) (int b) =
      match integral? op a b with
      | some k => some (int k)
      | none => (approximate? op (Number.ofInt a.toInt) (Number.ofInt b.toInt)).map float := rfl

theorem Exact.exists_double_iff {result : Option Value} (h : Exact n result) :
    (∃ x, result = some (float x)) ↔ ¬Integer.Fits n := by
  cases h with
  | integer k same => exact iff_of_false nofun fun h ↦ h (same ▸ Integer.fits_toInt k)
  | double x fails => exact iff_of_true ⟨x, rfl⟩ fails

/-- A result is exact that is the integer if that fits, and a double otherwise. -/
theorem exact_of_fit? {result : Option Value} (x : Float)
    (integer : ∀ k, Integer.fit? n = some k → result = some (int k))
    (double : Integer.fit? n = none → result = some (float x)) : Exact n result := by
  cases found : Integer.fit? n with
  | some k =>
    rw [integer k found]
    exact .integer k (Integer.fit?_eq_some found)
  | none =>
    rw [double found]
    exact .double x (Integer.not_fits found)

/-- An operation is exact that computes in integers first, and then in doubles without failing. -/
theorem exact_arithmeticOf? (op : ArithmeticOp) (integral : integral? op a b = Integer.fit? n)
    (approximate : approximate? op (Number.ofInt a.toInt) (Number.ofInt b.toInt) = some x) :
    Exact n (arithmeticOf? op (int a) (int b)) := by
  refine exact_of_fit? x (fun k found ↦ ?_) fun none ↦ ?_
  · rw [arithmeticOf?_int, integral, found]
  · rw [arithmeticOf?_int, integral, none, approximate, Option.map_some]

theorem exact_pow (lower : 0 ≤ b.toInt) (upper : b.toInt < 2 ^ 32) :
    Exact (a.toInt ^ b.toInt.toNat) (binary? .pow (int a) (int b)) := by
  refine exact_arithmeticOf? .pow ?_ rfl
  rw [integral?, if_pos ⟨Int64.le_iff_toInt_le.2 lower, upper⟩, Integer.pow?_eq]

theorem exact_neg (a : Int64) : Exact (-a.toInt) (unary? .neg (int a)) := by
  have unfolded : unary? .neg (int a) = some (negate (.int a)) := rfl
  refine exact_of_fit? (-(Number.ofInt a.toInt)) (fun k found ↦ ?_) fun none ↦ ?_
  · rw [unfolded, negate, found]
  · rw [unfolded, negate, none]

/-- The least integer has no negative. -/
theorem not_fits_neg : ¬Integer.Fits (-a.toInt) ↔ a = Int64.minValue := by
  have lower := Int64.le_toInt a
  have upper := Int64.toInt_lt a
  rw [← Int64.toInt_inj, Int64.toInt_minValue, Integer.Fits]
  omega

/-! ### Quotients and remainders -/

/-- The quotient in integers is the one without a remainder. -/
theorem integral?_div : integral? .div a b = some k ↔ b ≠ 0 ∧ k.toInt * b.toInt = a.toInt := by
  have zero : b.toInt = 0 ↔ b = 0 := Int64.toInt_inj (y := 0)
  rw [integral?]
  split
  · rename_i divides
    rw [Integer.fit?_eq_some_iff, eq_comm, Int.ediv_eq_iff_eq_mul_left (zero.not.2 divides.1)
      (Int.dvd_of_emod_eq_zero divides.2), eq_comm]
    exact ⟨fun h ↦ ⟨divides.1, h⟩, fun h ↦ h.2⟩
  · rename_i fails
    refine iff_of_false nofun fun h ↦ fails ⟨h.1, ?_⟩
    rw [← h.2, Int.mul_emod_left]

/-- The quotient in doubles fails just for the divisor zero. -/
theorem approximate?_div (x : Float) (b : Int64) :
    approximate? .div x (Number.ofInt b.toInt) =
      if b = 0 then none else some (x / Number.ofInt b.toInt) := by
  have zero : b.toInt = 0 ↔ b = 0 := Int64.toInt_inj (y := 0)
  rw [approximate?, Number.ofInt_beq_zero]
  simp only [decide_eq_true_iff, zero]

/-- Division is exact where it can be, fails by zero, and is that of doubles otherwise. -/
theorem div_eq (a b : Int64) :
    binary? .div (int a) (int b) =
      match integral? .div a b with
      | some k => some (int k)
      | none => if b = 0 then none else some (float (Number.ofInt a.toInt / Number.ofInt b.toInt)) := by
  have unfolded : binary? .div (int a) (int b) = arithmeticOf? .div (int a) (int b) := rfl
  rw [unfolded, arithmeticOf?_int, approximate?_div]
  cases integral? .div a b with
  | some k => rfl
  | none =>
    dsimp only
    split <;> rfl

theorem div_eq_none : binary? .div (int a) (int b) = none ↔ b = 0 := by
  rw [div_eq]
  cases found : integral? .div a b with
  | some k => exact iff_of_false nofun (integral?_div.1 found).1
  | none => simp

/-- A division has an integer result just if the divisor divides. -/
theorem div_eq_int : binary? .div (int a) (int b) = some (int k) ↔ b ≠ 0 ∧ k.toInt * b.toInt = a.toInt := by
  rw [← integral?_div, div_eq]
  cases integral? .div a b with
  | some l => simp
  | none =>
    dsimp only
    split <;> exact iff_of_false nofun nofun

/-- A division that is not exact has a double as its result. -/
theorem exists_div (h : b ≠ 0) (inexact : ∀ k : Int64, k.toInt * b.toInt ≠ a.toInt) :
    ∃ x, binary? .div (int a) (int b) = some (float x) := by
  have none : integral? .div a b = none :=
    Option.eq_none_iff_forall_ne_some.2 fun k found ↦ inexact k (integral?_div.1 found).2
  rw [div_eq, none]
  exact ⟨_, if_neg h⟩

/-- The remainder of a division, with the sign of the dividend. -/
structure IsRemainder (a b r : Int) : Prop where
  divides : b ∣ a - r
  small : r.natAbs < b.natAbs
  sign : 0 ≤ a ∧ 0 ≤ r ∨ a ≤ 0 ∧ r ≤ 0

/-- The truncated remainder is a remainder: it has the sign of the dividend. -/
theorem isRemainder_tmod {a b : Int} (h : b ≠ 0) : IsRemainder a b (a.tmod b) where
  divides := Int.dvd_self_sub_tmod
  small := by
    rw [Int.natAbs_tmod]
    exact Nat.mod_lt _ (Int.natAbs_pos.2 h)
  sign := by
    rcases Int.le_total 0 a with positive | negative
    · exact .inl ⟨positive, Int.tmod_nonneg b positive⟩
    · have turned := Int.tmod_nonneg b (Int.neg_nonneg_of_nonpos negative)
      rw [Int.neg_tmod] at turned
      exact .inr ⟨negative, Int.nonpos_of_neg_nonneg turned⟩

/-- A remainder fails just by zero. -/
theorem mod_eq_none : binary? .mod (int a) (int b) = none ↔ b = 0 := by
  have unfolded : binary? .mod (int a) (int b) =
    if b = 0 then none else some (int (Int64.ofInt (a.toInt.tmod b.toInt))) := rfl
  rw [unfolded]
  split
  · exact iff_of_true rfl ‹_›
  · exact iff_of_false nofun ‹_›

/-- Besides by zero, the remainder of two integers is one, also of the least integer by `-1`. -/
theorem exists_mod (h : b ≠ 0) :
    ∃ r, binary? .mod (int a) (int b) = some (int r) ∧ IsRemainder a.toInt b.toInt r.toInt := by
  have divisor : b.toInt ≠ 0 := fun zero ↦ h (Int64.toInt_inj.1 zero)
  have remainder := isRemainder_tmod (a := a.toInt) divisor
  have fits : Integer.Fits (a.toInt.tmod b.toInt) := by
    have small := remainder.small
    have lower := Int64.le_toInt b
    have upper := Int64.toInt_lt b
    exact ⟨by omega, by omega⟩
  refine ⟨Int64.ofInt (a.toInt.tmod b.toInt), if_neg h, ?_⟩
  rwa [Int64.toInt_ofInt_of_le fits.1 fits.2]

/-! ### Shifts -/

theorem shift_eq (f : Int64 → Nat → Int64) (a b : Int64) :
    shift? f (int a) (int b) =
      if 0 ≤ b.toInt ∧ b.toInt < 2 ^ 32 then some (int (f a b.toInt.toNat)) else none := rfl

theorem shift_negative (f : Int64 → Nat → Int64) (a : Int64) (h : b.toInt < 0) :
    shift? f (int a) (int b) = none := by
  rw [shift_eq, if_neg (by omega)]

theorem shift_eq_some (f : Int64 → Nat → Int64) (a : Int64) (lower : 0 ≤ b.toInt)
    (upper : b.toInt < 2 ^ 32) : shift? f (int a) (int b) = some (int (f a b.toInt.toNat)) := by
  rw [shift_eq, if_pos ⟨lower, upper⟩]

/-! ### All operators -/

/-- What the operators yield for two integers. -/
structure IntegerOperators (a b : Int64) : Prop where
  add : Exact (a.toInt + b.toInt) (binary? .add (int a) (int b))
  sub : Exact (a.toInt - b.toInt) (binary? .sub (int a) (int b))
  mul : Exact (a.toInt * b.toInt) (binary? .mul (int a) (int b))
  /-- There is no quotient by zero, and by all else there is one. -/
  div_zero : binary? .div (int a) (int b) = none ↔ b = 0
  /-- An integer is the quotient if no remainder is left, and only then. -/
  div_exact (k : Int64) :
    binary? .div (int a) (int b) = some (int k) ↔ b ≠ 0 ∧ k.toInt * b.toInt = a.toInt
  /-- Any other quotient is a double. -/
  div_inexact : b ≠ 0 → (∀ k : Int64, k.toInt * b.toInt ≠ a.toInt) →
    ∃ x, binary? .div (int a) (int b) = some (float x)
  mod_zero : binary? .mod (int a) (int b) = none ↔ b = 0
  mod : b ≠ 0 → ∃ r, binary? .mod (int a) (int b) = some (int r) ∧
    IsRemainder a.toInt b.toInt r.toInt
  pow : 0 ≤ b.toInt → b.toInt < 2 ^ 32 →
    Exact (a.toInt ^ b.toInt.toNat) (binary? .pow (int a) (int b))
  neg : Exact (-a.toInt) (unary? .neg (int a))
  /-- The least integer alone has no negative. -/
  neg_double : (∃ x, unary? .neg (int a) = some (float x)) ↔ a = Int64.minValue
  /-- The number of places is not negative. -/
  shift_negative : b.toInt < 0 →
    binary? .shiftLeft (int a) (int b) = none ∧ binary? .shiftRight (int a) (int b) = none
  /-- Beyond the word zeros are left, or copies of the sign. -/
  shift_far : 64 ≤ b.toInt → b.toInt < 2 ^ 32 →
    binary? .shiftLeft (int a) (int b) = some (int 0) ∧
      binary? .shiftRight (int a) (int b) = some (int (if a.toInt < 0 then -1 else 0))
  shift_left : 0 ≤ b.toInt → b.toInt < 64 → ∃ k, binary? .shiftLeft (int a) (int b) = some (int k) ∧
    k.toInt = (a.toInt * 2 ^ b.toInt.toNat).bmod (2 ^ 64)
  shift_right : 0 ≤ b.toInt → b.toInt < 64 → ∃ k, binary? .shiftRight (int a) (int b) = some (int k) ∧
    k.toInt = a.toInt / 2 ^ b.toInt.toNat

/-- Integer arithmetic is exact or leaves the integers; it never wraps around. -/
theorem integer_operators (a b : Int64) : IntegerOperators a b where
  add := exact_arithmeticOf? .add rfl rfl
  sub := exact_arithmeticOf? .sub rfl rfl
  mul := exact_arithmeticOf? .mul rfl rfl
  div_zero := div_eq_none
  div_exact _ := div_eq_int
  div_inexact := exists_div
  mod_zero := mod_eq_none
  mod := exists_mod
  pow := exact_pow
  neg := exact_neg a
  neg_double := (exact_neg a).exists_double_iff.trans not_fits_neg
  shift_negative h := ⟨Value.shift_negative shiftLeft a h, Value.shift_negative shiftRight a h⟩
  shift_far lower upper := by
    have places : ¬b.toInt.toNat < 64 := by omega
    refine ⟨(shift_eq_some shiftLeft a (by omega) upper).trans ?_,
      (shift_eq_some shiftRight a (by omega) upper).trans ?_⟩
    · rw [shiftLeft, if_neg places]
    · rw [shiftRight, if_neg places]
      simp only [Int64.lt_iff_toInt_lt, Int64.toInt_zero]
  shift_left lower upper :=
    ⟨_, shift_eq_some shiftLeft a lower (by omega), toInt_shiftLeft a (by omega)⟩
  shift_right lower upper :=
    ⟨_, shift_eq_some shiftRight a lower (by omega), toInt_shiftRight a (by omega)⟩

/-- The least integer, divided by -1 and raised from -2, and the places at the end of the word. -/
theorem integer_operators_least :
    (∃ x, binary? .div (int Int64.minValue) (int (-1)) = some (float x)) ∧
    (∃ r, binary? .mod (int Int64.minValue) (int (-1)) = some (int r) ∧
      IsRemainder Int64.minValue.toInt (-1 : Int64).toInt r.toInt) ∧
    binary? .pow (int (-2)) (int 63) = some (int Int64.minValue) ∧
    Exact ((-2 : Int64).toInt ^ (63 : Int64).toInt.toNat) (binary? .pow (int (-2)) (int 63)) ∧
    binary? .shiftRight (int (-2)) (int 64) = some (int (-1)) ∧
    ∃ k, binary? .shiftRight (int (-2)) (int 63) = some (int k) ∧ k.toInt = -2 / 2 ^ 63 := by
  have least := integer_operators Int64.minValue (-1)
  refine ⟨least.div_inexact (by decide) fun k same ↦ ?_, least.mod (by decide), by decide,
    (integer_operators (-2) 63).pow (by decide) (by decide),
    ((integer_operators (-2) 64).shift_far (by decide) (by decide)).2,
    (integer_operators (-2) 63).shift_right (by decide) (by decide)⟩
  have upper := Int64.toInt_lt k
  have whole : k.toInt * -1 = -2 ^ 63 := same
  omega

end Value

end ConfigScript
