import Autodiff.Scalar.Basic

/-!
# Floating-point scalars

Double and single precision. The arithmetic is that of IEEE 754; functions that the standard
library lacks are composed from ones that it has.
-/

namespace Autodiff

namespace FloatMath

def trunc (x : Float) : Float :=
  if x < 0 then x.ceil else x.floor

/-- Operands below this bound are their own `expM1` and `ln1p` to full precision. -/
def tiny : Float := 1e-17

/-- The exponential minus one, without cancellation near zero. -/
def expM1 (x : Float) : Float :=
  if x.abs < tiny then x
  else if x.abs < 0.5 then 2 * (x / 2).sinh * (x / 2).exp
  else x.exp - 1

/-- The logarithm of one plus the operand, without cancellation near zero. -/
def ln1p (x : Float) : Float :=
  if x.abs < tiny then x
  else if x.abs < 0.5 then 2 * (x / (2 + x)).atanh
  else (1 + x).log

/-- The square root of the sum of two squares. -/
def norm (x y : Float) : Float :=
  (x * x + y * y).sqrt

/-- The length of the vector `(x, y)`; very large and very small vectors are scaled first. -/
def hypot (x y : Float) : Float :=
  let x := x.abs
  let y := y.abs
  if x.isInf || y.isInf then 1 / 0
  else
    let longest := if x < y then y else x
    if longest > 1e150 then 1e200 * norm (x / 1e200) (y / 1e200)
    else if longest < 1e-150 then norm (x * 1e200) (y * 1e200) / 1e200
    else norm x y

/-- Computes a function of a single-precision number in double precision. -/
def single (f : Float → Float) (x : Float32) : Float32 :=
  (f x.toFloat).toFloat32

end FloatMath

instance : Scalar Float where
  add := Float.add
  sub := Float.sub
  mul := Float.mul
  div := Float.div
  neg := Float.neg
  zero := 0
  one := 1
  pow := Float.pow
  atan2 := Float.atan2
  hypot := FloatMath.hypot
  sqrt := Float.sqrt
  cbrt := Float.cbrt
  exp := Float.exp
  expM1 := FloatMath.expM1
  ln := Float.log
  ln1p := FloatMath.ln1p
  sin := Float.sin
  cos := Float.cos
  tan := Float.tan
  asin := Float.asin
  acos := Float.acos
  atan := Float.atan
  sinh := Float.sinh
  cosh := Float.cosh
  tanh := Float.tanh
  asinh := Float.asinh
  acosh := Float.acosh
  atanh := Float.atanh
  abs := Float.abs
  floor := Float.floor
  ceil := Float.ceil
  round := Float.round
  trunc := FloatMath.trunc
  less x y := x < y
  same x y := x == y
  isNan := Float.isNaN
  isFinite := Float.isFinite
  ofLiteral x := x

instance : Scalar Float32 where
  add := Float32.add
  sub := Float32.sub
  mul := Float32.mul
  div := Float32.div
  neg := Float32.neg
  zero := 0
  one := 1
  pow := Float32.pow
  atan2 := Float32.atan2
  hypot x y := (FloatMath.hypot x.toFloat y.toFloat).toFloat32
  sqrt := Float32.sqrt
  cbrt := Float32.cbrt
  exp := Float32.exp
  expM1 := FloatMath.single FloatMath.expM1
  ln := Float32.log
  ln1p := FloatMath.single FloatMath.ln1p
  sin := Float32.sin
  cos := Float32.cos
  tan := Float32.tan
  asin := Float32.asin
  acos := Float32.acos
  atan := Float32.atan
  sinh := Float32.sinh
  cosh := Float32.cosh
  tanh := Float32.tanh
  asinh := Float32.asinh
  acosh := Float32.acosh
  atanh := Float32.atanh
  abs := Float32.abs
  floor := Float32.floor
  ceil := Float32.ceil
  round := Float32.round
  trunc := FloatMath.single FloatMath.trunc
  less x y := x < y
  same x y := x == y
  isNan := Float32.isNaN
  isFinite := Float32.isFinite
  ofLiteral := Float.toFloat32

end Autodiff
