import Autodiff.Scalar.Basic

/-!
# Values and derivatives of the opcodes

`apply` evaluates one operation and `partials` gives its derivatives with respect to the
operands. The partials may use the result, which is already known when they are needed.
Where a derivative does not exist the rule picks a value: ties of `fmin` and `fmax` share the
derivative evenly, and jumps have derivative zero.
-/

namespace Autodiff

open Scalar

variable {α : Type} [Scalar α]

def UnaryOp.apply (op : UnaryOp) (a : α) : α :=
  match op with
  | .neg => -a
  | .recip => one / a
  | .sq => a * a
  | .sqrt => Scalar.sqrt a
  | .cbrt => Scalar.cbrt a
  | .exp => Scalar.exp a
  | .expM1 => Scalar.expM1 a
  | .ln => Scalar.ln a
  | .ln1p => Scalar.ln1p a
  | .sin => Scalar.sin a
  | .cos => Scalar.cos a
  | .tan => Scalar.tan a
  | .asin => Scalar.asin a
  | .acos => Scalar.acos a
  | .atan => Scalar.atan a
  | .sinh => Scalar.sinh a
  | .cosh => Scalar.cosh a
  | .tanh => Scalar.tanh a
  | .asinh => Scalar.asinh a
  | .acosh => Scalar.acosh a
  | .atanh => Scalar.atanh a
  | .abs => Scalar.abs a
  | .sign => Scalar.sign a
  | .floor => Scalar.floor a
  | .ceil => Scalar.ceil a
  | .round => Scalar.round a
  | .trunc => Scalar.trunc a

def BinaryOp.apply (op : BinaryOp) (a b : α) : α :=
  match op with
  | .add => a + b
  | .sub => a - b
  | .mul => a * b
  | .div => a / b
  | .pow => Scalar.pow a b
  | .atan2 => Scalar.atan2 a b
  | .hypot => Scalar.hypot a b
  | .fmin => Scalar.fmin a b
  | .fmax => Scalar.fmax a b

/-- The value of an operation on operands; a constant has none. -/
def Opcode.apply (op : Opcode) (a b : α) : Except Error α :=
  match op with
  | .const => .error (.violation (.wrongArity .const))
  | .unary op => .ok (op.apply a)
  | .binary op => .ok (op.apply a b)

/-- The derivative of a unary operation at operand `a` with result `r`. -/
def UnaryOp.derivative (op : UnaryOp) (a r : α) : α :=
  match op with
  | .neg => -one
  | .recip => -r * r
  | .sq => two * a
  | .sqrt => one / (two * r)
  | .cbrt => one / ((two + one) * r * r)
  | .exp => r
  | .expM1 => r + one
  | .ln => one / a
  | .ln1p => one / (one + a)
  | .sin => Scalar.cos a
  | .cos => -Scalar.sin a
  | .tan => one + r * r
  | .asin => one / Scalar.sqrt (one - a * a)
  | .acos => -one / Scalar.sqrt (one - a * a)
  | .atan => one / (one + a * a)
  | .sinh => Scalar.cosh a
  | .cosh => Scalar.sinh a
  | .tanh => one - r * r
  | .asinh => one / Scalar.sqrt (a * a + one)
  | .acosh => one / Scalar.sqrt (a * a - one)
  | .atanh => one / (one - a * a)
  | .abs => if less zero a then one else if less a zero then -one else zero
  | .sign | .floor | .ceil | .round | .trunc => zero

/-- The derivatives of a binary operation at operands `a` and `b` with result `r`. -/
def BinaryOp.derivatives (op : BinaryOp) (a b r : α) : α × α :=
  match op with
  | .add => (one, one)
  | .sub => (one, -one)
  | .mul => (b, a)
  | .div =>
    let inverse := one / b
    (inverse, -a * inverse * inverse)
  | .pow =>
    (b * Scalar.pow a (b - one), if same a zero then zero else r * Scalar.ln a)
  | .atan2 =>
    let norm := a * a + b * b
    (b / norm, -a / norm)
  | .hypot => (a / r, b / r)
  | .fmin =>
    if same a b then (one / two, one / two)
    else if less a b || isNan b then (one, zero)
    else (zero, one)
  | .fmax =>
    if same a b then (one / two, one / two)
    else if less b a || isNan b then (one, zero)
    else (zero, one)

/-- The derivatives of an operation with respect to both operands; an operand that is not read
has derivative zero. -/
def Opcode.partials (op : Opcode) (a b r : α) : α × α :=
  match op with
  | .const => (zero, zero)
  | .unary op => (op.derivative a r, zero)
  | .binary op => op.derivatives a b r

/-- Whether the result is not finite although every operand that is read is finite. -/
def Opcode.leavesDomain (op : Opcode) (a b r : α) : Bool :=
  isFinite a && (!op.isBinary || isFinite b) && !isFinite r

end Autodiff
