import Autodiff.Decimal.Dyadic

/-!
# Decimal digits of binary fractions

Two ways to choose decimal digits for a binary fraction. `Dyadic.shortest` takes the fewest
digits that no other floating-point number is nearer to; of two such decimals the nearer one wins,
and of two equally near ones the larger. `Dyadic.significant` takes a fixed number of digits of the
exact value, and a half goes to the even neighbour.
-/

namespace Autodiff

/-- The number `digits * 10 ^ power`. -/
structure Decimal where
  digits : Nat
  power : Int
deriving DecidableEq, Repr

namespace Dyadic

/-- Whether the distance down to the next floating-point number is half the distance up. -/
def isBinadeStart (value : Dyadic) : Bool :=
  value.mantissa == 1 <<< 52 && -1074 < value.exponent

/-- The decimal with least distance to the value among the two neighbours on the grid of
multiples of `10 ^ power`, if it rounds back to the value. In quarter units of the last
binary place the value is `4 * mantissa`, and the numbers that round to it lie within two
units above and two, or at the start of a binade one, below. -/
def nearestOnGrid? (value : Dyadic) (power : Int) : Option Decimal :=
  let (left, right) := commonScale power (value.exponent - 2)
  let center := 4 * value.mantissa * right
  let low := (4 * value.mantissa - if value.isBinadeStart then 1 else 2) * right
  let high := (4 * value.mantissa + 2) * right
  let closed := value.mantissa % 2 == 0
  let readsBack (count : Nat) : Bool :=
    if closed then low ≤ count * left && count * left ≤ high
    else low < count * left && count * left < high
  let below := center / left
  let belowFits := below ≠ 0 && readsBack below
  let aboveFits := readsBack (below + 1)
  let aboveIsNearer := (below + 1) * left - center ≤ center - below * left
  if aboveFits && (!belowFits || aboveIsNearer) then some ⟨below + 1, power⟩
  else if belowFits then some ⟨below, power⟩
  else none

/-- Searches finer and finer grids, `fuel` of them at most. -/
def shortestFrom (value : Dyadic) : Nat → Int → Decimal
  | 0, power =>
    let (left, right) := commonScale power value.exponent
    ⟨value.mantissa * right / left, power⟩
  | fuel + 1, power =>
    match value.nearestOnGrid? power with
    | some decimal => decimal
    | none => shortestFrom value fuel (power - 1)

/-- The shortest decimal of a positive double-precision number. Seventeen digits always
suffice, and `powerAbove` overshoots the first digit by two places at most. -/
def shortest (value : Dyadic) : Decimal :=
  shortestFrom value 24 value.powerAbove

/-- The quotient rounded to the nearest whole number, a half to the even one. -/
def roundQuotient (numerator denominator : Nat) : Nat :=
  let quotient := numerator / denominator
  let twice := 2 * (numerator % denominator)
  if denominator < twice || (twice == denominator && quotient % 2 == 1) then quotient + 1
  else quotient

/-- The decimal with `count` significant digits nearest to a positive number. -/
def significant (value : Dyadic) (count : Nat) : Decimal :=
  let power := value.leadingPower - ((count : Int) - 1)
  let (left, right) := commonScale power value.exponent
  let digits := roundQuotient (value.mantissa * right) left
  if digits = Nat.pow 10 count then ⟨Nat.pow 10 (count - 1), power + 1⟩ else ⟨digits, power⟩

end Dyadic

end Autodiff
