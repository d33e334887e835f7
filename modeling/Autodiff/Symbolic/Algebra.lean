import Autodiff.Graph.Construct
import Autodiff.Scalar.Float
import Autodiff.Scalar.Rules
import Autodiff.Tape.Algebra

/-!
# Expressions as elements

Handles of 1x1 expressions as elements of a sweep. Operations on literals are folded, and
additions of zero, multiplications by zero, one and minus one, divisions by one and double
negations are simplified away, so that derivative expressions stay small.

The monad decides how literals are folded. In a graph the value is computed at once.
-/

namespace Autodiff

/-- Computations that fold operations on literals. -/
class MonadFold (m : Type → Type) where
  /-- The value of an operation on literals; a unary operation does not read the second one. -/
  fold : Opcode → Float → Float → m Float

instance : MonadFold GraphM where
  fold op left right := op.apply left right

variable {m : Type → Type} [Monad m] [MonadLiftT GraphM m] [MonadFold m]

namespace Symbolic

open GraphM MonadFold

def literal? (handle : Handle) : GraphM (Option Float) := do
  (← get).literal? handle

def negated? (handle : Handle) : GraphM (Option Handle) := do
  match (← (← get).entry handle).node with
  | .unary .neg inner => return some inner
  | _ => return none

/-- The result of a unary operation, folded or simplified if possible. -/
def unary (op : Opcode) (operand : Handle) : m Handle := do
  match ← literal? operand with
  | some value => constant (← fold op value 0)
  | none =>
    match op, ← negated? operand with
    | .unary .neg, some inner => return inner
    | _, _ => GraphM.unary op operand

def negate (operand : Handle) : m Handle :=
  unary (.unary .neg) operand

def isValue (literal? : Option Float) (value : Float) : Bool :=
  literal?.any (· == value)

/-- The result of a binary operation, simplified if a literal among the operands allows it. -/
def simplified (op : BinaryOp) (left? right? : Option Float) (lhs rhs : Handle) : m Handle :=
  match op with
  | .add =>
    if isValue left? 0 then return rhs
    else if isValue right? 0 then return lhs
    else scalarBinary .add lhs rhs
  | .sub =>
    if isValue right? 0 then return lhs
    else if isValue left? 0 then negate rhs
    else scalarBinary .sub lhs rhs
  | .mul =>
    if isValue left? 0 || isValue right? 0 then return .zero
    else if isValue left? 1 then return rhs
    else if isValue right? 1 then return lhs
    else if isValue left? (-1) then negate rhs
    else if isValue right? (-1) then negate lhs
    else scalarBinary .mul lhs rhs
  | .div =>
    if isValue right? 1 then return lhs
    else if isValue left? 0 then return .zero
    else scalarBinary .div lhs rhs
  | op => scalarBinary op lhs rhs

/-- The result of a binary operation, folded or simplified if possible. -/
def binary (op : BinaryOp) (lhs rhs : Handle) : m Handle := do
  match ← literal? lhs, ← literal? rhs with
  | some left, some right => constant (← fold (.binary op) left right)
  | left?, right? => simplified op left? right? lhs rhs

def eval (op : Opcode) (first second : Handle) : m Handle :=
  match op with
  | .binary op => binary op first second
  | op => unary op first

def reciprocal (operand : Handle) : m Handle :=
  binary .div .one operand

def square (operand : Handle) : m Handle :=
  unary (.unary .sq) operand

def inverseRoot (radicand : Handle) : m Handle := do
  reciprocal (← unary (.unary .sqrt) radicand)

def derivative (op : UnaryOp) (a r : Handle) : m Handle :=
  match op with
  | .neg => constant (-1)
  | .recip => do negate (← square r)
  | .sq => binary .mul .two a
  | .sqrt => do reciprocal (← binary .mul .two r)
  | .cbrt => do
    let three ← constant 3
    let squared ← square r
    reciprocal (← binary .mul three squared)
  | .exp => return r
  | .expM1 => binary .add r .one
  | .ln => reciprocal a
  | .ln1p => do reciprocal (← binary .add .one a)
  | .sin => unary (.unary .cos) a
  | .cos => do negate (← unary (.unary .sin) a)
  | .tan => do binary .add .one (← square r)
  | .asin => do inverseRoot (← binary .sub .one (← square a))
  | .acos => do negate (← inverseRoot (← binary .sub .one (← square a)))
  | .atan => do reciprocal (← binary .add .one (← square a))
  | .sinh => unary (.unary .cosh) a
  | .cosh => unary (.unary .sinh) a
  | .tanh => do binary .sub .one (← square r)
  | .asinh => do inverseRoot (← binary .add (← square a) .one)
  | .acosh => do inverseRoot (← binary .sub (← square a) .one)
  | .atanh => do reciprocal (← binary .sub .one (← square a))
  | .abs => unary (.unary .sign) a
  | .sign | .floor | .ceil | .round | .trunc => return .zero

/-- One half, and one half times the sign of `b - a`. -/
def tieShare (a b : Handle) : m (Handle × Handle) := do
  let difference ← binary .sub b a
  let sign ← unary (.unary .sign) difference
  let half ← constant 0.5
  return (half, ← binary .mul half sign)

/-- The derivatives of a binary operation at operands `a` and `b` with result `r`. The
derivative of a power with respect to its exponent uses `ln (a + 1 - sign(a)^2)`, which is zero at
`a = 0`; minimum and maximum select by the sign of `b - a`. -/
def derivatives (op : BinaryOp) (a b r : Handle) : m (Handle × Handle) :=
  match op with
  | .add => return (.one, .one)
  | .sub => do
    let minusOne ← constant (-1)
    return (.one, minusOne)
  | .mul => return (b, a)
  | .div => do
    let inverse ← reciprocal b
    let quotient ← binary .mul r inverse
    return (inverse, ← negate quotient)
  | .pow => do
    let lower ← binary .sub b .one
    let power ← binary .pow a lower
    let first ← binary .mul b power
    let sign ← unary (.unary .sign) a
    let squared ← square sign
    let hole ← binary .sub .one squared
    let shifted ← binary .add a hole
    let log ← unary (.unary .ln) shifted
    return (first, ← binary .mul r log)
  | .atan2 => do
    let first ← square a
    let second ← square b
    let norm ← binary .add first second
    let left ← binary .div b norm
    let negative ← negate a
    return (left, ← binary .div negative norm)
  | .hypot => do
    let left ← binary .div a r
    return (left, ← binary .div b r)
  | .fmin => do
    let (half, share) ← tieShare a b
    let left ← binary .add half share
    return (left, ← binary .sub half share)
  | .fmax => do
    let (half, share) ← tieShare a b
    let left ← binary .sub half share
    return (left, ← binary .add half share)

/-- The derivatives of an operation; an operand that is not read has derivative zero. -/
def partials (op : Opcode) (a b r : Handle) : m (Handle × Handle) :=
  match op with
  | .const => return (.zero, .zero)
  | .unary op => return (← derivative op a r, .zero)
  | .binary op => derivatives op a b r

/-- Whether an expression is a literal that compares equal to zero. -/
def isZero (handle : Handle) : GraphM Bool := do
  (← get).isLiteral handle 0

end Symbolic

def expressions : Algebra m Handle where
  zero := .zero
  constant value := GraphM.constant value
  eval := Symbolic.eval
  partials := Symbolic.partials
  add := Symbolic.binary .add
  mul := Symbolic.binary .mul
  isZero handle := Symbolic.isZero handle
  admissible _ _ _ _ := true

end Autodiff
