import Autodiff.Decimal.Digits

/-!
# Decimal text

Three ways to write a floating-point number. `plainText` writes the shortest digits without
an exponent, `literalText` keeps a fraction and changes to an exponent for very large and very small
numbers, and `scientificText` writes a fixed number of significant digits.
-/

namespace Autodiff

def zeroDigits (count : Nat) : String :=
  String.ofList (List.replicate count '0')

namespace Decimal

def leadingPower (decimal : Decimal) : Int :=
  ((toString decimal.digits).length : Int) + decimal.power - 1

/-- The part before the decimal point and the part behind it. -/
def split (decimal : Decimal) : String × String :=
  let digits := (toString decimal.digits).toList
  let point := (digits.length : Int) + decimal.power
  if 0 ≤ decimal.power then
    (String.ofList digits ++ zeroDigits decimal.power.toNat, "")
  else if 0 < point then
    (String.ofList (digits.take point.toNat), String.ofList (digits.drop point.toNat))
  else
    ("0", zeroDigits (-point).toNat ++ String.ofList digits)

/-- Digits without an exponent; a whole number has no decimal point. -/
def plain (decimal : Decimal) : String :=
  match decimal.split with
  | (whole, "") => whole
  | (whole, fraction) => whole ++ "." ++ fraction

/-- Digits without an exponent; a whole number ends in `.0`. -/
def withFraction (decimal : Decimal) : String :=
  match decimal.split with
  | (whole, "") => whole ++ ".0"
  | (whole, fraction) => whole ++ "." ++ fraction

/-- One digit before the decimal point, if any digits are left a fraction, and an exponent. -/
def scientific (decimal : Decimal) : String :=
  let digits := (toString decimal.digits).toList
  let fraction := String.ofList (digits.drop 1)
  String.ofList (digits.take 1) ++ (if fraction.isEmpty then "" else "." ++ fraction) ++
    "e" ++ toString decimal.leadingPower

end Decimal

def signed (negative : Bool) (magnitude : String) : String :=
  if negative then "-" ++ magnitude else magnitude

/-- The fewest digits that read back, never with an exponent. -/
def plainText (value : Float) : String :=
  match FloatParts.ofFloat value with
  | .nan => "NaN"
  | .infinite negative => signed negative "inf"
  | .finite negative magnitude =>
    signed negative (if magnitude.mantissa = 0 then "0" else magnitude.shortest.plain)

/-- The fewest digits that read back, always with a fraction or an exponent: an exponent from
`10 ^ 16` on and for nonzero numbers below `10 ^ (-4)`. -/
def literalText (value : Float) : String :=
  match FloatParts.ofFloat value with
  | .nan => "NaN"
  | .infinite negative => signed negative "inf"
  | .finite negative magnitude =>
    signed negative <|
      if magnitude.mantissa = 0 then "0.0"
      else
        let decimal := magnitude.shortest
        if 16 ≤ decimal.leadingPower || decimal.leadingPower < -4 then decimal.scientific
        else decimal.withFraction

/-- A given number of significant digits with an exponent. -/
def scientificText (count : Nat) (value : Float) : String :=
  match FloatParts.ofFloat value with
  | .nan => "nan"
  | .infinite negative => signed negative "inf"
  | .finite negative magnitude =>
    signed negative <|
      if magnitude.mantissa = 0 then
        (if count ≤ 1 then "0" else "0." ++ zeroDigits (count - 1)) ++ "e0"
      else
        (magnitude.significant count).scientific

/-- The value of a whole number below `10 ^ 15` in magnitude, the sign of a zero dropped. -/
def smallWhole? (value : Float) : Option Int :=
  match FloatParts.ofFloat value with
  | .finite negative magnitude =>
    let (left, right) := Dyadic.commonScale 0 magnitude.exponent
    let scaled := magnitude.mantissa * right
    if scaled % left = 0 && scaled / left < Nat.pow 10 15 then
      some (if negative then -((scaled / left : Nat) : Int) else (scaled / left : Nat))
    else none
  | _ => none

/-- Small whole numbers as integers, all others by `plainText`. -/
def displayText (value : Float) : String :=
  match smallWhole? value with
  | some whole => toString whole
  | none => plainText value

end Autodiff
