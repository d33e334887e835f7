import Autodiff.Decimal.Dyadic
import Mathlib.Algebra.Group.Nat.Defs
import Mathlib.Tactic.Common

/-!
# The parts of floating-point numbers

What the parts of a number say about it: a number that is not finite is one of three quotients.
-/

namespace Autodiff

theorem eq_of_toBits_eq {left right : Float} (same : left.toBits = right.toBits) :
    left = right := by
  rcases left with ⟨leftBits, _⟩
  rcases right with ⟨rightBits, _⟩
  change leftBits = rightBits at same
  subst same
  rfl

namespace FloatParts

theorem toNat_biased (bits : UInt64) : ((bits >>> 52) &&& 0x7ff).toNat = bits.toNat / 2 ^ 52 % 2 ^ 11 := by
  have masked := Nat.and_two_pow_sub_one_eq_mod (bits.toNat >>> 52) 11
  simpa [Nat.shiftRight_eq_div_pow] using masked

theorem toNat_fraction (bits : UInt64) : (bits &&& 0xfffffffffffff).toNat = bits.toNat % 2 ^ 52 := by
  simpa using Nat.and_two_pow_sub_one_eq_mod bits.toNat 52

theorem negative_iff (bits : UInt64) : (bits >>> 63 == 1) = decide (2 ^ 63 ≤ bits.toNat) := by
  have bounded := bits.toNat_lt
  rw [Bool.eq_iff_iff, beq_iff_eq, decide_eq_true_eq, ← UInt64.toNat_inj]
  simp [Nat.shiftRight_eq_div_pow]
  omega

open Float.Model Float.Model.UnpackedFloat

theorem toNat_unpackExponent (bits : UInt64) :
    (@unpackExponent .binary64 bits.toBitVec).toNat = bits.toNat / 2 ^ 52 % 2 ^ 11 := by
  simp [unpackExponent, Nat.shiftRight_eq_div_pow]

theorem toNat_unpackMantissa (bits : UInt64) :
    (@unpackMantissa .binary64 bits.toBitVec).toNat = bits.toNat % 2 ^ 52 := by
  simp [unpackMantissa]

theorem unpackExponent_eq_iff (bits : UInt64) :
    @unpackExponent .binary64 bits.toBitVec = -1#_ ↔ bits.toNat / 2 ^ 52 % 2 ^ 11 = 2047 := by
  rw [← BitVec.toNat_inj, toNat_unpackExponent]
  rfl

variable {value : Float}

theorem eq_of_nan (isNan : ofFloat value = .nan) : value = 0 / 0 := by
  rw [ofFloat, ofBits] at isNan
  split at isNan
  · rename_i allOnes
    split at isNan
    · cases isNan
    · rename_i nonzero
      rw [toNat_biased] at allOnes
      rw [toNat_fraction, ← toNat_unpackMantissa] at nonzero
      -- A number has only one NaN.
      have canonical := value.toModel.valid.eq_packedNaN ((unpackExponent_eq_iff _).mpr allOnes)
        fun isZero => nonzero (congrArg BitVec.toNat isZero)
      exact eq_of_toBits_eq (UInt64.toBitVec_inj.mp canonical)
  · split at isNan <;> cases isNan

theorem eq_of_infinite {negative : Bool} (isInfinite : ofFloat value = .infinite negative) :
    value = if negative then -1 / 0 else 1 / 0 := by
  have bounded := value.toBits.toNat_lt
  rw [ofFloat, ofBits] at isInfinite
  split at isInfinite
  · rename_i allOnes
    split at isInfinite
    · rename_i isZero
      rw [toNat_biased] at allOnes
      rw [toNat_fraction] at isZero
      rw [FloatParts.infinite.injEq, negative_iff] at isInfinite
      apply eq_of_toBits_eq
      apply UInt64.toNat_inj.mp
      cases negative with
      | false =>
          have bits : (1 / 0 : Float).toBits.toNat = 2047 * 2 ^ 52 := by decide +kernel
          rw [decide_eq_false_iff_not] at isInfinite
          simp [bits]
          omega
      | true =>
          have bits : (-1 / 0 : Float).toBits.toNat = 2 ^ 63 + 2047 * 2 ^ 52 := by decide +kernel
          rw [decide_eq_true_eq] at isInfinite
          simp [bits]
          omega
    · cases isInfinite
  · split at isInfinite <;> cases isInfinite

theorem isFinite_of_finite {negative : Bool} {magnitude : Dyadic}
    (finite : ofFloat value = .finite negative magnitude) : value.isFinite := by
  rw [ofFloat, ofBits] at finite
  split at finite
  · split at finite <;> cases finite
  · rename_i notAllOnes
    rw [toNat_biased] at notAllOnes
    unfold Float.isFinite Float.Model.isFinite Float.Model.unpack UnpackedFloat.unpack
    have exponent : @unpackExponent .binary64 value.toModel.toBits.toBitVec ≠ -1#_ :=
      fun allOnes => notAllOnes ((unpackExponent_eq_iff _).mp allOnes)
    rw [if_neg exponent]
    by_cases subnormal : @unpackExponent .binary64 value.toModel.toBits.toBitVec = 0#_
    · rw [if_pos subnormal]
      by_cases zero : @unpackMantissa .binary64 value.toModel.toBits.toBitVec = 0#_
      · rw [dif_pos zero]
        rfl
      · rw [dif_neg zero]
        rfl
    · rw [if_neg subnormal]
      rfl

end FloatParts

end Autodiff
