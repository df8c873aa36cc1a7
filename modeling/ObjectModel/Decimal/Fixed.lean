import ObjectModel.Decimal.Double
import ObjectModel.Decimal.Nearest

/-!
# Decimals with a fixed number of places

The exact value of a double is rounded once to a number of places; a half goes to the even
neighbour.
-/

namespace ObjectModel.Decimal

def padded (width : Nat) (digits : List Char) : List Char :=
  List.replicate (width - digits.length) '0' ++ digits

/-- A count of units of the last place, written with a point before the last `places` digits. -/
def withPoint (places units : Nat) : String :=
  let digits := padded (places + 1) (Nat.toDigits 10 units)
  let whole := digits.length - places
  String.ofList (digits.take whole ++ '.' :: digits.drop whole)

/-- `significand · 2 ^ exponent` in units of the last of `places` decimal places. -/
def fixedUnits (places significand : Nat) (exponent : Int) : Nat :=
  if 0 ≤ exponent then significand * Nat.pow 2 exponent.toNat * Nat.pow 10 places
  else roundDiv (significand * Nat.pow 10 places) (Nat.pow 2 (-exponent).toNat)

/-- The text of a double with `places` decimal places. -/
def fixedText (places : Nat) (value : Binary64) : String :=
  (Double.of value).text fun significand exponent =>
    withPoint places (fixedUnits places significand exponent)

end ObjectModel.Decimal
