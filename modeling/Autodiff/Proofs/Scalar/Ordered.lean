import Autodiff.Proofs.Scalar.Exact
import Mathlib.Algebra.Order.Field.Basic
import Mathlib.Tactic.NormNum

/-!
# Scalars of an ordered field

Exact scalars whose division and comparison are those of a linearly ordered field. Of the elementary
functions only three facts are assumed: `hypot` is commutative, the logarithm of one is zero, and the literals
that derivative expressions contain mean the numbers that they show.
-/

namespace Autodiff

-- Where a type is a ring and a scalar type, the symbols of arithmetic mean the ring.
attribute [-instance] Scalar.toAdd Scalar.toSub Scalar.toMul Scalar.toDiv Scalar.toNeg

variable {K : Type} [Field K] [LinearOrder K]

/-- Scalars that compute and compare in an ordered field, in which dividing by zero gives zero. -/
structure Scalar.Ordered (scalar : Scalar K) : Prop extends scalar.Exact where
  quotient : ∀ left right, scalar.div left right = left / right
  less : ∀ left right, scalar.less left right = true ↔ left < right
  isNan : ∀ element, scalar.isNan element = false
  hypot_comm : ∀ left right, scalar.hypot left right = scalar.hypot right left
  ln_one : scalar.ln 1 = 0
  literal_zero : scalar.ofLiteral 0 = 0
  literal_negZero : scalar.ofLiteral (-0) = 0
  literal_one : scalar.ofLiteral 1 = 1
  literal_negOne : scalar.ofLiteral (-1) = -1
  literal_half : scalar.ofLiteral 0.5 = 1 / 2
  literal_two : scalar.ofLiteral 2 = 2
  literal_three : scalar.ofLiteral 3 = 3

/-- The literals that partials contain; all others are read as zero. -/
def smallLiteral (K : Type) [Field K] (value : Float) : K :=
  if value = 1 then 1 else if value = -1 then -1 else if value = 0.5 then 1 / (2 : ℕ)
  else if value = 2 then (2 : ℕ) else if value = 3 then (3 : ℕ) else 0

/-- Exact scalars over an ordered field; the elementary functions are zero. -/
noncomputable abbrev Scalar.ofField (K : Type) [Field K] [LinearOrder K] : Scalar K :=
  { Scalar.ofRing (· / ·) (smallLiteral K) with less := fun left right => decide (left < right) }

theorem Scalar.ordered_ofField : (Scalar.ofField K).Ordered where
  zero := rfl
  one := rfl
  add _ _ := rfl
  sub _ _ := rfl
  mul _ _ := rfl
  neg _ := rfl
  div left _ isUnit := div_mul_cancel₀ left isUnit.ne_zero
  same left right := @decide_eq_true_iff (left = right) (Classical.propDecidable _)
  isFinite _ := rfl
  quotient _ _ := rfl
  less _ _ := decide_eq_true_iff
  isNan _ := rfl
  hypot_comm _ _ := rfl
  ln_one := rfl
  literal_zero := rfl
  literal_negZero := rfl
  literal_one := rfl
  literal_negOne := rfl
  literal_half := rfl
  literal_two := rfl
  literal_three := rfl

namespace Scalar.Ordered

variable {scalar : Scalar K} (ordered : scalar.Ordered)
include ordered

/-! ## The arithmetic of the rules -/

theorem hAdd_eq (left right : K) :
    @HAdd.hAdd K K K (@instHAdd K scalar.toAdd) left right = left + right :=
  ordered.add left right

theorem hSub_eq (left right : K) :
    @HSub.hSub K K K (@instHSub K scalar.toSub) left right = left - right :=
  ordered.sub left right

theorem hMul_eq (left right : K) :
    @HMul.hMul K K K (@instHMul K scalar.toMul) left right = left * right :=
  ordered.mul left right

theorem hDiv_eq (left right : K) :
    @HDiv.hDiv K K K (@instHDiv K scalar.toDiv) left right = left / right :=
  ordered.quotient left right

theorem neg_eq (element : K) : @Neg.neg K scalar.toNeg element = -element :=
  ordered.neg element

theorem two_eq : scalar.two = (2 : K) := by
  rw [Scalar.two, ordered.hAdd_eq, ordered.one, one_add_one_eq_two]

/-! ## Signs and ties -/

theorem sign_eq (element : K) :
    scalar.sign element = if 0 < element then 1 else if element < 0 then -1 else 0 := by
  simp only [Scalar.sign, ordered.less, ordered.zero, ordered.one, ordered.neg_eq]
  split
  · rfl
  · split
    · rfl
    · rename_i notPositive notNegative
      exact le_antisymm (not_lt.mp notPositive) (not_lt.mp notNegative)

theorem fmin_eq (left right : K) : scalar.fmin left right = min left right := by
  simp only [Scalar.fmin, ordered.isNan, ordered.less, Bool.false_eq_true, if_false]
  split
  · rename_i isLess
    exact (min_eq_right isLess.le).symm
  · rename_i notLess
    exact (min_eq_left (not_lt.mp notLess)).symm

theorem fmax_eq (left right : K) : scalar.fmax left right = max left right := by
  simp only [Scalar.fmax, ordered.isNan, ordered.less, Bool.false_eq_true, if_false]
  split
  · rename_i isLess
    exact (max_eq_right isLess.le).symm
  · rename_i notLess
    exact (max_eq_left (not_lt.mp notLess)).symm

/-! ## Rules with case distinctions -/

theorem derivative_abs (element result : K) :
    UnaryOp.derivative .abs element result = scalar.sign element := by
  simp only [UnaryOp.derivative, ordered.sign_eq, ordered.less, ordered.zero, ordered.one,
    ordered.neg_eq]

/-- The derivative of a power with respect to its exponent, without a case distinction: the argument of the
logarithm is the base, unless the base is zero; then it is one. -/
theorem derivatives_pow (base exponent result : K) :
    BinaryOp.derivatives .pow base exponent result =
      (exponent * scalar.pow base (exponent - 1),
        result * scalar.ln (base + (1 - scalar.sign base * scalar.sign base))) := by
  simp only [BinaryOp.derivatives, ordered.same, ordered.zero, ordered.one, ordered.hMul_eq,
    ordered.hSub_eq, ordered.sign_eq, Prod.mk.injEq, true_and]
  rcases lt_trichotomy base 0 with negative | rfl | positive
  · simp [negative, negative.not_gt, negative.ne]
  · simp [ordered.ln_one]
  · simp [positive, positive.ne']

variable [IsStrictOrderedRing K]

theorem sign_sub (left right : K) : scalar.sign (right - left) =
    if left = right then 0 else if left < right then 1 else -1 := by
  rw [ordered.sign_eq]
  rcases lt_trichotomy left right with less | rfl | greater
  · simp [less, less.ne]
  · simp
  · simp [greater.ne', greater.not_gt, sub_pos, sub_neg, greater]

/-- Which operand the minimum follows is told by the sign of the difference; ties are split. -/
theorem derivatives_fmin (left right result : K) :
    BinaryOp.derivatives .fmin left right result =
      (1 / 2 + 1 / 2 * scalar.sign (right - left), 1 / 2 - 1 / 2 * scalar.sign (right - left)) := by
  simp only [BinaryOp.derivatives, ordered.same, ordered.less, ordered.isNan, ordered.zero,
    ordered.one, ordered.two_eq, ordered.hDiv_eq, ordered.sign_sub, Bool.or_false]
  rcases lt_trichotomy left right with less | rfl | greater
  · norm_num [less, less.ne]
  · norm_num
  · norm_num [greater.ne', greater.not_gt]

theorem derivatives_fmax (left right result : K) :
    BinaryOp.derivatives .fmax left right result =
      (1 / 2 - 1 / 2 * scalar.sign (right - left), 1 / 2 + 1 / 2 * scalar.sign (right - left)) := by
  simp only [BinaryOp.derivatives, ordered.same, ordered.less, ordered.isNan, ordered.zero,
    ordered.one, ordered.two_eq, ordered.hDiv_eq, ordered.sign_sub, Bool.or_false]
  rcases lt_trichotomy left right with less | rfl | greater
  · norm_num [less, less.ne, less.not_gt]
  · norm_num
  · norm_num [greater.ne', greater.not_gt, greater]

end Scalar.Ordered

end Autodiff
