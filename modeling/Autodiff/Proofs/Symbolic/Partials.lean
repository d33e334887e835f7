import Autodiff.Proofs.Symbolic.Evaluation

/-!
# Derivative expressions

The derivative of every operation is written twice: as a rule on numbers, and as a program that builds an
expression. Over an ordered field both are the same function of the operands and the result. The expression
avoids case distinctions; where the rule makes one, it computes with signs.
-/

namespace Autodiff

attribute [-instance] Scalar.toAdd Scalar.toSub Scalar.toMul Scalar.toDiv Scalar.toNeg

def Scalar.derivativeRules {α : Type} (scalar : Scalar α) : DerivativeRules α :=
  ⟨UnaryOp.derivative, BinaryOp.derivatives⟩

/-- Expressions as numbers: every operation may be used. -/
def Scalar.reading {α : Type} (scalar : Scalar α) (assignment : Handle → List α) : Reading α :=
  ⟨scalar.meaning, assignment, .all⟩

variable {K : Type} [Field K] [LinearOrder K]

namespace Scalar.Ordered

variable {scalar : Scalar K}

theorem linear (ordered : scalar.Ordered) (assignment : Handle → List K) :
    (scalar.reading assignment).Linear where
  toLawful := ordered.simplifies.lawful assignment
  allowsAdd := trivial
  allowsMul := trivial
  add_eq := ordered.add
  mul_eq := ordered.mul

/-! ## Arithmetic on expressions -/

section Arithmetic

variable {assignment : Handle → List K} {world : World} {handle lhs rhs : Handle}
  {element left right : K}

variable (ordered : scalar.Ordered)
include ordered

theorem denotes_one (world : World) :
    (scalar.reading assignment).Denotes world .one 1 :=
  ordered.literal_one ▸ Reading.denotes_one world

theorem denotes_two (world : World) :
    (scalar.reading assignment).Denotes world .two 2 :=
  ordered.literal_two ▸ Reading.denotes_two world

theorem completes_unary (op : UnaryOp) (denotes : (scalar.reading assignment).Denotes world handle element) :
    (scalar.reading assignment).Builds world (Symbolic.unary (.unary op) handle) (Symbolic.unary (.unary op) handle)
      (op.apply element) :=
  Reading.completes_unary (ordered.linear assignment).toLawful trivial denotes

theorem completes_binary (op : BinaryOp) (leftDenotes : (scalar.reading assignment).Denotes world lhs left)
    (rightDenotes : (scalar.reading assignment).Denotes world rhs right) :
    (scalar.reading assignment).Builds world (Symbolic.binary op lhs rhs) (Symbolic.binary op lhs rhs)
      (op.apply left right) :=
  Reading.completes_binary (ordered.linear assignment).toLawful trivial leftDenotes rightDenotes

section Operands

variable (leftDenotes : (scalar.reading assignment).Denotes world lhs left)
  (rightDenotes : (scalar.reading assignment).Denotes world rhs right)
include leftDenotes rightDenotes

theorem completes_add :
    (scalar.reading assignment).Builds world (Symbolic.binary .add lhs rhs) (Symbolic.binary .add lhs rhs)
      (left + right) :=
  ordered.add left right ▸ ordered.completes_binary .add leftDenotes rightDenotes

theorem completes_sub :
    (scalar.reading assignment).Builds world (Symbolic.binary .sub lhs rhs) (Symbolic.binary .sub lhs rhs)
      (left - right) :=
  ordered.sub left right ▸ ordered.completes_binary .sub leftDenotes rightDenotes

theorem completes_mul :
    (scalar.reading assignment).Builds world (Symbolic.binary .mul lhs rhs) (Symbolic.binary .mul lhs rhs)
      (left * right) :=
  ordered.mul left right ▸ ordered.completes_binary .mul leftDenotes rightDenotes

theorem completes_div :
    (scalar.reading assignment).Builds world (Symbolic.binary .div lhs rhs) (Symbolic.binary .div lhs rhs)
      (left / right) :=
  ordered.quotient left right ▸ ordered.completes_binary .div leftDenotes rightDenotes

end Operands

variable (denotes : (scalar.reading assignment).Denotes world handle element)
include denotes

theorem completes_negate :
    (scalar.reading assignment).Builds world (Symbolic.negate handle) (Symbolic.negate handle) (-element) :=
  ordered.neg element ▸ ordered.completes_unary .neg denotes

theorem completes_square :
    (scalar.reading assignment).Builds world (Symbolic.square handle) (Symbolic.square handle)
      (element * element) :=
  ordered.mul element element ▸ ordered.completes_unary .sq denotes

theorem completes_reciprocal :
    (scalar.reading assignment).Builds world (Symbolic.reciprocal handle) (Symbolic.reciprocal handle)
      (1 / element) :=
  ordered.completes_div (ordered.denotes_one world) denotes

theorem completes_inverseRoot :
    (scalar.reading assignment).Builds world (Symbolic.inverseRoot handle) (Symbolic.inverseRoot handle)
      (1 / scalar.sqrt element) := by
  apply (ordered.completes_unary .sqrt denotes).bind
  intro later root _ rootDenotes
  exact ordered.completes_reciprocal rootDenotes

end Arithmetic

/-! ## Unary operations -/

section Rules

variable {assignment : Handle → List K} {world : World} {operand lhs rhs result : Handle}
  {element value left right : K}

theorem derivative_eq (ordered : scalar.Ordered) (op : UnaryOp) (element value : K) :
    op.derivative element value = match op with
      | .neg => -1
      | .recip => -(value * value)
      | .sq => 2 * element
      | .sqrt => 1 / (2 * value)
      | .cbrt => 1 / (3 * (value * value))
      | .exp => value
      | .expM1 => value + 1
      | .ln => 1 / element
      | .ln1p => 1 / (1 + element)
      | .sin => scalar.cos element
      | .cos => -scalar.sin element
      | .tan => 1 + value * value
      | .asin => 1 / scalar.sqrt (1 - element * element)
      | .acos => -(1 / scalar.sqrt (1 - element * element))
      | .atan => 1 / (1 + element * element)
      | .sinh => scalar.cosh element
      | .cosh => scalar.sinh element
      | .tanh => 1 - value * value
      | .asinh => 1 / scalar.sqrt (element * element + 1)
      | .acosh => 1 / scalar.sqrt (element * element - 1)
      | .atanh => 1 / (1 - element * element)
      | .abs => scalar.sign element
      | .sign | .floor | .ceil | .round | .trunc => 0 := by
  have three : (2 : K) + 1 = 3 := by norm_num
  cases op with
  | abs => exact ordered.derivative_abs element value
  | _ =>
      simp only [UnaryOp.derivative, ordered.zero, ordered.one, ordered.two_eq, ordered.neg_eq,
        ordered.hAdd_eq, ordered.hSub_eq, ordered.hMul_eq, ordered.hDiv_eq, neg_mul, neg_div, three,
        mul_assoc]

theorem completes_derivative (ordered : scalar.Ordered) (op : UnaryOp)
    (operandDenotes : (scalar.reading assignment).Denotes world operand element)
    (resultDenotes : (scalar.reading assignment).Denotes world result value) :
    (scalar.reading assignment).Builds world (Symbolic.derivative op operand result) (Symbolic.derivative op operand result)
      (op.derivative element value) := by
  have isZero : (scalar.reading assignment).Denotes world .zero 0 :=
    Reading.denotes_zero (ordered.linear assignment).toLawful world
  rw [ordered.derivative_eq]
  cases op with
  | neg => exact ordered.literal_negOne ▸ Reading.completes_constant _ _
  | recip =>
      apply (ordered.completes_square resultDenotes).bind
      intro later squared _ squaredDenotes
      exact ordered.completes_negate squaredDenotes
  | sq => exact ordered.completes_mul (ordered.denotes_two world) operandDenotes
  | sqrt =>
      apply (ordered.completes_mul (ordered.denotes_two world) resultDenotes).bind
      intro later product _ productDenotes
      exact ordered.completes_reciprocal productDenotes
  | cbrt =>
      apply (Reading.completes_constant (scalar.reading assignment) 3).bind
      intro first three growsFirst threeDenotes
      apply (ordered.completes_square (resultDenotes.grow growsFirst)).bind
      intro second squared growsSecond squaredDenotes
      apply (ordered.completes_mul (threeDenotes.grow growsSecond) squaredDenotes).bind
      intro third product _ productDenotes
      exact ordered.literal_three ▸ ordered.completes_reciprocal productDenotes
  | exp => exact .pure resultDenotes
  | expM1 => exact ordered.completes_add resultDenotes (ordered.denotes_one world)
  | ln => exact ordered.completes_reciprocal operandDenotes
  | ln1p =>
      apply (ordered.completes_add (ordered.denotes_one world) operandDenotes).bind
      intro later sum _ sumDenotes
      exact ordered.completes_reciprocal sumDenotes
  | sin => exact ordered.completes_unary .cos operandDenotes
  | cos =>
      apply (ordered.completes_unary .sin operandDenotes).bind
      intro later sine _ sineDenotes
      exact ordered.completes_negate sineDenotes
  | tan =>
      apply (ordered.completes_square resultDenotes).bind
      intro later squared _ squaredDenotes
      exact ordered.completes_add (ordered.denotes_one later) squaredDenotes
  | asin =>
      apply (ordered.completes_square operandDenotes).bind
      intro first squared _ squaredDenotes
      apply (ordered.completes_sub (ordered.denotes_one first) squaredDenotes).bind
      intro second radicand _ radicandDenotes
      exact ordered.completes_inverseRoot radicandDenotes
  | acos =>
      apply (ordered.completes_square operandDenotes).bind
      intro first squared _ squaredDenotes
      apply (ordered.completes_sub (ordered.denotes_one first) squaredDenotes).bind
      intro second radicand _ radicandDenotes
      apply (ordered.completes_inverseRoot radicandDenotes).bind
      intro third inverse _ inverseDenotes
      exact ordered.completes_negate inverseDenotes
  | atan =>
      apply (ordered.completes_square operandDenotes).bind
      intro first squared _ squaredDenotes
      apply (ordered.completes_add (ordered.denotes_one first) squaredDenotes).bind
      intro second sum _ sumDenotes
      exact ordered.completes_reciprocal sumDenotes
  | sinh => exact ordered.completes_unary .cosh operandDenotes
  | cosh => exact ordered.completes_unary .sinh operandDenotes
  | tanh =>
      apply (ordered.completes_square resultDenotes).bind
      intro later squared _ squaredDenotes
      exact ordered.completes_sub (ordered.denotes_one later) squaredDenotes
  | asinh =>
      apply (ordered.completes_square operandDenotes).bind
      intro first squared _ squaredDenotes
      apply (ordered.completes_add squaredDenotes (ordered.denotes_one first)).bind
      intro second radicand _ radicandDenotes
      exact ordered.completes_inverseRoot radicandDenotes
  | acosh =>
      apply (ordered.completes_square operandDenotes).bind
      intro first squared _ squaredDenotes
      apply (ordered.completes_sub squaredDenotes (ordered.denotes_one first)).bind
      intro second radicand _ radicandDenotes
      exact ordered.completes_inverseRoot radicandDenotes
  | atanh =>
      apply (ordered.completes_square operandDenotes).bind
      intro first squared _ squaredDenotes
      apply (ordered.completes_sub (ordered.denotes_one first) squaredDenotes).bind
      intro second difference _ differenceDenotes
      exact ordered.completes_reciprocal differenceDenotes
  | abs => exact ordered.completes_unary .sign operandDenotes
  | sign | floor | ceil | round | trunc => exact .pure isZero

/-! ## Binary operations -/

theorem completes_tieShare (ordered : scalar.Ordered)
    (leftDenotes : (scalar.reading assignment).Denotes world lhs left)
    (rightDenotes : (scalar.reading assignment).Denotes world rhs right) :
    Completes world (Symbolic.tieShare lhs rhs) (Symbolic.tieShare lhs rhs) fun world shares =>
      (scalar.reading assignment).DenotesPair world shares
        (1 / 2, 1 / 2 * scalar.sign (right - left)) := by
  apply (ordered.completes_sub rightDenotes leftDenotes).bind
  intro first difference growsFirst differenceDenotes
  apply (ordered.completes_unary .sign differenceDenotes).bind
  intro second sign growsSecond signDenotes
  apply (Reading.completes_constant (scalar.reading assignment) 0.5).bind
  intro third half growsThird halfDenotes
  have isHalf : (scalar.reading assignment).Denotes third half (1 / 2) :=
    ordered.literal_half ▸ halfDenotes
  apply (ordered.completes_mul isHalf (signDenotes.grow growsThird)).bind
  intro fourth share growsFourth shareDenotes
  exact .pure ⟨isHalf.grow growsFourth, shareDenotes⟩

theorem derivatives_eq [IsStrictOrderedRing K] (ordered : scalar.Ordered) (op : BinaryOp)
    (left right : K) :
    op.derivatives left right (op.apply left right) = match op with
      | .add => (1, 1)
      | .sub => (1, -1)
      | .mul => (right, left)
      | .div => (1 / right, -(left / right * (1 / right)))
      | .pow => (right * scalar.pow left (right - 1),
          scalar.pow left right * scalar.ln (left + (1 - scalar.sign left * scalar.sign left)))
      | .atan2 => (right / (left * left + right * right), -left / (left * left + right * right))
      | .hypot => (left / scalar.hypot left right, right / scalar.hypot left right)
      | .fmin => (1 / 2 + 1 / 2 * scalar.sign (right - left),
          1 / 2 - 1 / 2 * scalar.sign (right - left))
      | .fmax => (1 / 2 - 1 / 2 * scalar.sign (right - left),
          1 / 2 + 1 / 2 * scalar.sign (right - left)) := by
  cases op with
  | pow => exact ordered.derivatives_pow left right _
  | fmin => exact ordered.derivatives_fmin left right _
  | fmax => exact ordered.derivatives_fmax left right _
  | div =>
      simp only [BinaryOp.derivatives, ordered.one, ordered.neg_eq, ordered.hMul_eq, ordered.hDiv_eq,
        Prod.mk.injEq, true_and]
      ring
  | _ =>
      simp only [BinaryOp.derivatives, BinaryOp.apply, ordered.one, ordered.neg_eq, ordered.hAdd_eq,
        ordered.hMul_eq, ordered.hDiv_eq]

theorem completes_derivatives [IsStrictOrderedRing K] (ordered : scalar.Ordered) (op : BinaryOp)
    (leftDenotes : (scalar.reading assignment).Denotes world lhs left)
    (rightDenotes : (scalar.reading assignment).Denotes world rhs right)
    (resultDenotes : (scalar.reading assignment).Denotes world result (op.apply left right)) :
    Completes world (Symbolic.derivatives op lhs rhs result) (Symbolic.derivatives op lhs rhs result)
      fun world weights => (scalar.reading assignment).DenotesPair world weights
        (op.derivatives left right (op.apply left right)) := by
  rw [ordered.derivatives_eq]
  cases op with
  | add => exact .pure ⟨ordered.denotes_one world, ordered.denotes_one world⟩
  | sub =>
      apply (Reading.completes_constant (scalar.reading assignment) (-1)).bind
      intro later minusOne _ minusOneDenotes
      exact .pure ⟨ordered.denotes_one later, ordered.literal_negOne ▸ minusOneDenotes⟩
  | mul => exact .pure ⟨rightDenotes, leftDenotes⟩
  | div =>
      have isQuotient : (scalar.reading assignment).Denotes world result (left / right) :=
        ordered.quotient left right ▸ resultDenotes
      apply (ordered.completes_reciprocal rightDenotes).bind
      intro first inverse growsFirst inverseDenotes
      apply (ordered.completes_mul (isQuotient.grow growsFirst) inverseDenotes).bind
      intro second quotient growsSecond quotientDenotes
      apply (ordered.completes_negate quotientDenotes).bind
      intro third negative growsThird negativeDenotes
      exact .pure ⟨inverseDenotes.grow (growsSecond.trans growsThird), negativeDenotes⟩
  | pow =>
      apply (ordered.completes_sub rightDenotes (ordered.denotes_one world)).bind
      intro first lower growsFirst lowerDenotes
      apply (ordered.completes_binary .pow (leftDenotes.grow growsFirst) lowerDenotes).bind
      intro second power growsSecond powerDenotes
      have growsSince := growsFirst.trans growsSecond
      apply (ordered.completes_mul (rightDenotes.grow growsSince) powerDenotes).bind
      intro third weight growsThird weightDenotes
      -- The logarithm of the base, or of one if the base is zero.
      have baseDenotes := leftDenotes.grow (growsSince.trans growsThird)
      apply (ordered.completes_unary .sign baseDenotes).bind
      intro fourth sign growsFourth signDenotes
      apply (ordered.completes_square signDenotes).bind
      intro fifth squared growsFifth squaredDenotes
      apply (ordered.completes_sub (ordered.denotes_one fifth) squaredDenotes).bind
      intro sixth hole growsSixth holeDenotes
      have growsHole := (growsFourth.trans growsFifth).trans growsSixth
      apply (ordered.completes_add (baseDenotes.grow growsHole) holeDenotes).bind
      intro seventh shifted growsSeventh shiftedDenotes
      apply (ordered.completes_unary .ln shiftedDenotes).bind
      intro eighth log growsEighth logDenotes
      have growsLog := (growsHole.trans growsSeventh).trans growsEighth
      have powerLater := resultDenotes.grow ((growsSince.trans growsThird).trans growsLog)
      apply (ordered.completes_mul powerLater logDenotes).bind
      intro last product growsLast productDenotes
      exact .pure ⟨weightDenotes.grow (growsLog.trans growsLast), productDenotes⟩
  | atan2 =>
      apply (ordered.completes_square leftDenotes).bind
      intro first leftSquare growsFirst leftSquareDenotes
      apply (ordered.completes_square (rightDenotes.grow growsFirst)).bind
      intro second rightSquare growsSecond rightSquareDenotes
      apply (ordered.completes_add (leftSquareDenotes.grow growsSecond) rightSquareDenotes).bind
      intro third norm growsThird normDenotes
      have growsNorm := (growsFirst.trans growsSecond).trans growsThird
      apply (ordered.completes_div (rightDenotes.grow growsNorm) normDenotes).bind
      intro fourth weight growsFourth weightDenotes
      apply (ordered.completes_negate (leftDenotes.grow (growsNorm.trans growsFourth))).bind
      intro fifth negative growsFifth negativeDenotes
      have normLater := normDenotes.grow (growsFourth.trans growsFifth)
      apply (ordered.completes_div negativeDenotes normLater).bind
      intro last quotient growsLast quotientDenotes
      exact .pure ⟨weightDenotes.grow (growsFifth.trans growsLast), quotientDenotes⟩
  | hypot =>
      apply (ordered.completes_div leftDenotes resultDenotes).bind
      intro first weight growsFirst weightDenotes
      apply (ordered.completes_div (rightDenotes.grow growsFirst) (resultDenotes.grow growsFirst)).bind
      intro second quotient growsSecond quotientDenotes
      exact .pure ⟨weightDenotes.grow growsSecond, quotientDenotes⟩
  | fmin =>
      apply (ordered.completes_tieShare leftDenotes rightDenotes).bind
      rintro first ⟨half, share⟩ growsFirst ⟨halfDenotes, shareDenotes⟩
      apply (ordered.completes_add halfDenotes shareDenotes).bind
      intro second weight growsSecond weightDenotes
      apply (ordered.completes_sub (halfDenotes.grow growsSecond) (shareDenotes.grow growsSecond)).bind
      intro third other growsThird otherDenotes
      exact .pure ⟨weightDenotes.grow growsThird, otherDenotes⟩
  | fmax =>
      apply (ordered.completes_tieShare leftDenotes rightDenotes).bind
      rintro first ⟨half, share⟩ growsFirst ⟨halfDenotes, shareDenotes⟩
      apply (ordered.completes_sub halfDenotes shareDenotes).bind
      intro second weight growsSecond weightDenotes
      apply (ordered.completes_add (halfDenotes.grow growsSecond) (shareDenotes.grow growsSecond)).bind
      intro third other growsThird otherDenotes
      exact .pure ⟨weightDenotes.grow growsThird, otherDenotes⟩

/-- The derivative expressions of all operations denote what the rules on numbers compute. -/
theorem derives [IsStrictOrderedRing K] (ordered : scalar.Ordered) (assignment : Handle → List K) :
    (scalar.reading assignment).Derives scalar.derivativeRules where
  unary _ op _ _ _ _ operandDenotes resultDenotes :=
    ordered.completes_derivative op operandDenotes resultDenotes
  binary _ op _ _ _ _ _ _ leftDenotes rightDenotes resultDenotes :=
    ordered.completes_derivatives op leftDenotes rightDenotes resultDenotes

end Rules

end Scalar.Ordered

end Autodiff
