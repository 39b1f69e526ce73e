import ConfigScript.Value.Numeric
import Mathlib

/-!
# The order of doubles

Two doubles are compared in the same way from both sides (`Numeric.compareFloats_swap`), and equality, which
takes the two zeros as equal and a NaN as equal to nothing, is symmetric and transitive. An integer other
than zero is no zero as a double (`Number.ofInt_beq_zero`).
-/

namespace ConfigScript

open Float.Model (UnpackedFloat)

/-! ### Comparison -/

namespace Number

/-- Unpacked doubles are compared in reverse from the other side. -/
theorem unpacked_swap (a b : UnpackedFloat) : b.compare a = (a.compare b).map Ordering.swap := by
  cases a with
  | notANumber => cases b <;> rfl
  | zero s =>
    cases b with
    | notANumber | zero => rfl
    | infinity t | finite t => cases t <;> rfl
  | infinity s =>
    cases b with
    | notANumber | zero | finite => cases s <;> rfl
    | infinity t => cases s <;> cases t <;> rfl
  | finite s m e =>
    cases b with
    | notANumber => rfl
    | zero => cases s <;> rfl
    | infinity t => cases t <;> rfl
    | finite t n f =>
      -- The order of magnitudes, which is turned round for negative numbers.
      have magnitudes : (compare f e).then (compare n m) = ((compare e f).then (compare m n)).swap := by
        rw [Ordering.swap_then, Int.compare_swap, Nat.compare_swap]
      cases s <;> cases t
      · exact congrArg (some ·.swap) magnitudes
      · rfl
      · rfl
      · exact congrArg some magnitudes

/-- Equal numbers are the same number, or both are zeros. -/
theorem eq_or_zero {a b : UnpackedFloat} (h : a.compare b = some .eq) :
    a = b ∨ ∃ s t, a = .zero s ∧ b = .zero t := by
  cases a with
  | notANumber => cases h
  | zero s =>
    cases b with
    | zero t => exact .inr ⟨s, t, rfl, rfl⟩
    | notANumber => cases h
    | infinity t | finite t => cases t <;> cases h
  | infinity s =>
    cases b with
    | notANumber | zero | finite => cases s <;> cases h
    | infinity t => cases s <;> cases t <;> first | exact .inl rfl | cases h
  | finite s m e =>
    cases b with
    | notANumber => cases h
    | zero => cases s <;> cases h
    | infinity t => cases t <;> cases h
    | finite t n f =>
      have magnitudes (same : (compare e f).then (compare m n) = .eq) : e = f ∧ m = n := by
        rw [Ordering.then_eq_eq, Int.compare_eq_eq, Nat.compare_eq_eq] at same
        exact same
      cases s <;> cases t
      · obtain ⟨rfl, rfl⟩ := magnitudes (Ordering.swap_eq_eq.1 (Option.some.inj h))
        exact .inl rfl
      · cases h
      · cases h
      · obtain ⟨rfl, rfl⟩ := magnitudes (Option.some.inj h)
        exact .inl rfl

/-- Equal doubles are so across a third. -/
theorem unpacked_trans {a b c : UnpackedFloat} (h : a.compare b = some .eq) (h' : b.compare c = some .eq) :
    a.compare c = some .eq := by
  rcases eq_or_zero h with rfl | ⟨s, t, rfl, rfl⟩
  · exact h'
  rcases eq_or_zero h' with rfl | ⟨-, u, -, rfl⟩
  · exact h
  · rfl

theorem lt_iff {x y : Float} : x < y ↔ x.toModel.compare y.toModel = some .lt := by
  have unfolded : x < y ↔ decide (x.toModel < y.toModel) = true := Iff.rfl
  rw [unfolded, decide_eq_true_iff]
  exact beq_iff_eq

theorem beq_iff {x y : Float} : (x == y) = true ↔ x.toModel.compare y.toModel = some .eq :=
  beq_iff_eq (a := x.toModel.compare y.toModel)

theorem model_swap (x y : Float) :
    y.toModel.compare x.toModel = (x.toModel.compare y.toModel).map Ordering.swap :=
  unpacked_swap _ _

theorem beq_comm (x y : Float) : (x == y) = (y == x) := by
  rw [Bool.eq_iff_iff, beq_iff, beq_iff, model_swap x y]
  cases x.toModel.compare y.toModel with
  | none => exact Iff.rfl
  | some o => cases o <;> decide

theorem beq_trans {x y z : Float} (h : x == y) (h' : y == z) : x == z :=
  beq_iff.2 (unpacked_trans (beq_iff.1 h) (beq_iff.1 h'))

end Number

namespace Numeric

theorem compareFloats_eq (x y : Float) : compareFloats x y = x.toModel.compare y.toModel := by
  simp only [compareFloats, Number.lt_iff, Number.beq_iff, Number.model_swap x y]
  cases x.toModel.compare y.toModel with
  | none => rfl
  | some o => cases o <;> rfl

theorem compareFloats_swap (x y : Float) : compareFloats y x = (compareFloats x y).map Ordering.swap := by
  rw [compareFloats_eq, compareFloats_eq, Number.model_swap x y]

/-- Numbers are compared in the same way from both sides. -/
theorem compare?_swap (m n : Numeric) : n.compare? m = (m.compare? n).map Ordering.swap := by
  cases m <;> cases n
  · simp only [compare?, Option.map_some, Int.compare_swap]
  · exact compareFloats_swap _ _
  · exact compareFloats_swap _ _
  · exact compareFloats_swap _ _

end Numeric

/-! ### Zero -/

namespace Number

open Float.Model Float.Model.UnpackedFloat

/-- The exponent among the bits of a double. -/
def exponentBits (b : BitVec 64) : BitVec 11 := @unpackExponent Format.binary64 b

theorem toNat_exponentBits (b : BitVec 64) : (exponentBits b).toNat = b.toNat >>> 52 % 2 ^ 11 := by
  unfold exponentBits unpackExponent
  rw [BitVec.toNat_cast, BitVec.extractLsb_toNat]
  rfl

theorem exponentBits_packComponents (s : Sign) (e : BitVec 11) (m : BitVec 52) :
    exponentBits (packComponents Format.binary64 s e m) = e :=
  unpackExponent_packComponents

/-- Zeros have the exponent zero. -/
theorem exponentBits_of_zero {b : BitVec 64} {s : Sign}
    (h : UnpackedFloat.unpack Format.binary64 b = .zero s) : exponentBits b = 0#11 := by
  unfold UnpackedFloat.unpack at h
  dsimp only at h
  split at h
  · split at h <;> cases h
  · split at h
    · assumption
    · cases h

/-- A significand of a normal double has all bits of the mantissa. -/
theorem log2_significand (m : BitVec 52) :
    (1#1 ++ m).toNat.log2 + 1 = Format.binary64.mantissaBits := by
  have value : (1#1 ++ m).toNat = 2 ^ 52 + m.toNat := by
    rw [BitVec.toNat_append, ← Nat.shiftLeft_add_eq_or_of_lt m.isLt]
    rfl
  have bound := m.isLt
  rw [value]
  exact congrArg (· + 1) ((Nat.log2_eq_iff (by omega)).2 (by omega))

/-- Doubles with another exponent keep it when they are put together. -/
theorem exponentBits_pack {b : BitVec 64} (h : exponentBits b ≠ 0#11) :
    exponentBits (UnpackedFloat.pack Format.binary64 (UnpackedFloat.unpack Format.binary64 b)) =
      exponentBits b := by
  unfold UnpackedFloat.unpack
  dsimp only
  -- Infinities and NaN have the greatest exponent; that of all other doubles is moved and moved back.
  split
  · rename_i special
    have special : exponentBits b = -1#11 := special
    rw [special]
    split
    · exact exponentBits_packComponents _ _ _
    · exact exponentBits_packComponents _ _ _
  · rename_i special
    split
    · rename_i zero
      exact absurd zero h
    · have special : exponentBits b ≠ -1#11 := special
      have bound : (exponentBits b).toNat < 2 ^ 11 := (exponentBits b).isLt
      have below : (exponentBits b).toNat ≠ 2047 := fun same ↦ special (BitVec.eq_of_toNat_eq same)
      have biased (n bias : Nat) : ((n : Int) - (bias + (52 : Nat)) + bias + (52 : Nat)).toNat = n := by
        omega
      unfold UnpackedFloat.pack
      dsimp only
      have small : ¬2 ^ 11 ≤ (@unpackExponent Format.binary64 b).toNat + 1 :=
        fun large ↦ below (Nat.le_antisymm (Nat.le_of_lt_succ bound) (Nat.le_of_succ_le_succ large))
      rw [biased, if_neg small, if_pos (log2_significand _), exponentBits_packComponents]
      exact (BitVec.ofNat_toNat ..).trans (BitVec.setWidth_eq _)

/-- A double with another exponent than that of zeros is no zero. -/
theorem ofBits_beq_zero {bits : UInt64} (h : exponentBits bits.toBitVec ≠ 0#11) :
    (Float.ofBits bits == 0) = false := by
  rw [Bool.eq_false_iff]
  intro equal
  have same : (Float.ofBits bits).toModel.unpack.compare (.zero .positive) = some .eq :=
    beq_iff.1 equal
  obtain ⟨s, zero⟩ : ∃ s, (Float.ofBits bits).toModel.unpack = .zero s := by
    rcases eq_or_zero same with zero | ⟨s, -, zero, -⟩
    · exact ⟨_, zero⟩
    · exact ⟨s, zero⟩
  have exponent := exponentBits_of_zero zero
  exact h ((exponentBits_pack h).symm.trans exponent)

theorem le_binaryExponent (n : Nat) : -53 ≤ binaryExponent n 1 := by
  have one : Nat.log2 1 = 0 := rfl
  unfold binaryExponent
  dsimp only
  split <;> omega

/-- The double nearest to a natural number other than zero has another exponent than zeros. -/
theorem le_nearestBits {n : Nat} (h : n ≠ 0) :
    2 ^ 52 ≤ (nearestBits n 1).toNat ∧ (nearestBits n 1).toNat ≤ infinityBits := by
  have infinity : infinityBits = 0x7FF0000000000000 := rfl
  have small (m : Nat) (le : m ≤ infinityBits) : (UInt64.ofNat m).toNat = m :=
    UInt64.toNat_ofNat_of_lt' (Nat.lt_of_le_of_lt le (by decide))
  unfold nearestBits
  rw [if_neg (by simpa using h)]
  dsimp only
  split
  · rw [small _ (Nat.le_refl _)]
    omega
  · have exponent := le_binaryExponent n
    rw [small _ (Nat.min_le_left ..)]
    unfold leadingBit minExponent
    omega

/-- The sign does not matter for the exponent. -/
theorem exponentBits_ne_zero {bits : UInt64} (lower : 2 ^ 52 ≤ bits.toNat) (upper : bits.toNat ≤ infinityBits)
    (negative : Prop) [Decidable negative] :
    exponentBits (if negative then bits ||| 0x8000000000000000 else bits).toBitVec ≠ 0#11 := by
  have infinity : infinityBits = 0x7FF0000000000000 := rfl
  have signed : (bits ||| 0x8000000000000000).toNat = 2 ^ 63 + bits.toNat := by
    have below : bits.toNat < 2 ^ 63 := by omega
    rw [UInt64.toNat_or, Nat.or_comm]
    exact (Nat.shiftLeft_add_eq_or_of_lt below 1).symm
  intro none
  have field := congrArg BitVec.toNat none
  rw [toNat_exponentBits, UInt64.toNat_toBitVec, Nat.shiftRight_eq_div_pow] at field
  split at field
  · rw [signed, BitVec.toNat_zero] at field
    omega
  · rw [BitVec.toNat_zero] at field
    omega

/-- Just zero is a zero as a double. -/
theorem ofInt_beq_zero (n : Int) : (ofInt n == 0) = decide (n = 0) := by
  by_cases zero : n = 0
  · subst zero
    rfl
  · obtain ⟨lower, upper⟩ := le_nearestBits (Int.natAbs_ne_zero.2 zero)
    rw [decide_eq_false zero]
    exact ofBits_beq_zero (exponentBits_ne_zero lower upper (n < 0))

end Number

end ConfigScript
