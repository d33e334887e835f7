import Autodiff.Error

/-!
# Scalars

The arithmetic that the rules of the opcodes are written in. The rules hold for any type with
this arithmetic: floating-point numbers of either width, but also exact fields, where they are
the textbook formulas.
-/

namespace Autodiff

class Scalar (α : Type) extends Add α, Sub α, Mul α, Div α, Neg α where
  zero : α
  one : α
  pow : α → α → α
  atan2 : α → α → α
  hypot : α → α → α
  sqrt : α → α
  cbrt : α → α
  exp : α → α
  expM1 : α → α
  ln : α → α
  ln1p : α → α
  sin : α → α
  cos : α → α
  tan : α → α
  asin : α → α
  acos : α → α
  atan : α → α
  sinh : α → α
  cosh : α → α
  tanh : α → α
  asinh : α → α
  acosh : α → α
  atanh : α → α
  abs : α → α
  floor : α → α
  ceil : α → α
  /-- Rounds to the nearest whole number, a half away from zero. -/
  round : α → α
  trunc : α → α
  less : α → α → Bool
  same : α → α → Bool
  isNan : α → Bool
  isFinite : α → Bool
  ofLiteral : Float → α

namespace Scalar

variable {α : Type} [Scalar α]

def two : α := one + one

/-- Minus one, zero or one by the sign of the operand; zeros and NaNs are their own sign. -/
def sign (a : α) : α :=
  if less zero a then one else if less a zero then -one else a

/-- The smaller operand; of a NaN and a number it is the number. -/
def fmin (a b : α) : α :=
  if isNan a then b else if isNan b then a else if less b a then b else a

/-- The larger operand; of a NaN and a number it is the number. -/
def fmax (a b : α) : α :=
  if isNan a then b else if isNan b then a else if less a b then b else a

end Scalar

end Autodiff
