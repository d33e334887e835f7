/-!
# Binary fractions

A finite floating-point number is a mantissa times a power of two. All decimal text is derived
from this exact form by integer arithmetic.
-/

namespace Autodiff

/-- The number `mantissa * 2 ^ exponent`. -/
structure Dyadic where
  mantissa : Nat
  exponent : Int
deriving DecidableEq, Repr

/-- A floating-point number taken apart; the sign of a zero is kept. -/
inductive FloatParts where
  | nan
  | infinite (negative : Bool)
  | finite (negative : Bool) (magnitude : Dyadic)
deriving DecidableEq, Repr

namespace FloatParts

def ofBits (bits : UInt64) : FloatParts :=
  let negative := bits >>> 63 == 1
  let biased := ((bits >>> 52) &&& 0x7ff).toNat
  let fraction := (bits &&& 0xfffffffffffff).toNat
  if biased = 2047 then
    if fraction = 0 then .infinite negative else .nan
  else if biased = 0 then
    .finite negative ⟨fraction, -1074⟩
  else
    .finite negative ⟨fraction + 1 <<< 52, (biased : Int) - 1075⟩

def ofFloat (value : Float) : FloatParts :=
  ofBits value.toBits

end FloatParts

namespace Dyadic

/-- The factors `(left, right)` for which `count * 10 ^ power` and `units * 2 ^ exponent` compare
as `count * left` and `units * right`. -/
def commonScale (power exponent : Int) : Nat × Nat :=
  (Nat.pow 10 power.toNat <<< (-exponent).toNat, Nat.pow 10 (-power).toNat <<< exponent.toNat)

/-- A power of ten that exceeds a positive number: its logarithm to the base two bounds the one
to the base ten. -/
def powerAbove (value : Dyadic) : Int :=
  ((value.mantissa.log2 : Int) + value.exponent + 1) * 30103 / 100000 + 1

/-- The largest `power`, at most the given one, with `10 ^ power` not above the value. -/
def leadingPowerFrom (value : Dyadic) : Nat → Int → Int
  | 0, power => power
  | fuel + 1, power =>
    let (left, right) := commonScale power value.exponent
    if left ≤ value.mantissa * right then power else leadingPowerFrom value fuel (power - 1)

/-- The power of ten of the first significant digit of a positive number. -/
def leadingPower (value : Dyadic) : Int :=
  leadingPowerFrom value 4 value.powerAbove

end Dyadic

end Autodiff
