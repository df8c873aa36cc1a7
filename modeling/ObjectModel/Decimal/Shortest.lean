import ObjectModel.Decimal.Double
import ObjectModel.Decimal.Nearest

/-!
# The shortest decimal that reads back

Of the decimals nearest to a double and to no other, the ones with the fewest digits are kept, and
of these the one nearest to the double. It is written positionally, whatever its size.
-/

namespace ObjectModel.Decimal

/-- The numbers that round to one double, as integers over one denominator: the double itself, the
ends of the interval, and whether the ends belong to it. -/
structure Interval where
  low : Nat
  value : Nat
  high : Nat
  den : Nat
  closed : Bool

/-- The interval of `significand · 2 ^ exponent`. Below a power of two the next double is half as
far away as above it. -/
def Interval.of (significand : Nat) (exponent : Int) : Interval :=
  let narrow := significand = Nat.pow 2 52 ∧ -1074 < exponent
  let scale := if 0 ≤ exponent then Nat.pow 2 exponent.toNat else 1
  { low := (if narrow then 4 * significand - 1 else 4 * significand - 2) * scale
    value := 4 * significand * scale
    high := (4 * significand + 2) * scale
    den := 4 * (if 0 ≤ exponent then 1 else Nat.pow 2 (-exponent).toNat)
    closed := significand % 2 = 0 }

def Interval.contains (interval : Interval) (num den' : Nat) : Bool :=
  let point := num * interval.den
  let low := interval.low * den'
  let high := interval.high * den'
  if interval.closed then low ≤ point && point ≤ high else low < point && point < high

structure Scaled where
  digits : Nat
  exponent : Int

/-- The multiple of `10 ^ exponent` in the interval that is nearest to its value, if there is one.
Of two equally near ones the larger is taken. -/
def Interval.onGrid (interval : Interval) (exponent : Int) : Option Scaled :=
  let up := if 0 ≤ exponent then Nat.pow 10 exponent.toNat else 1
  let down := if 0 ≤ exponent then 1 else Nat.pow 10 (-exponent).toNat
  let below := interval.value * down / (interval.den * up)
  let fits (n : Nat) := interval.contains (n * up) down
  let nearBelow :=
    interval.value * down - below * (interval.den * up)
      < (below + 1) * (interval.den * up) - interval.value * down
  match fits below, fits (below + 1) with
  | true, true => some ⟨if nearBelow then below else below + 1, exponent⟩
  | true, false => some ⟨below, exponent⟩
  | false, true => some ⟨below + 1, exponent⟩
  | false, false => none

def Interval.search (interval : Interval) (exponent : Int) : Nat → Option Scaled
  | 0 => none
  | tries + 1 =>
    match interval.onGrid exponent with
    | some decimal => if decimal.digits = 0 then interval.search (exponent - 1) tries else some decimal
    | none => interval.search (exponent - 1) tries

/-- An upper bound for the decimal exponent of a double's leading digit. -/
def leadingExponent (significand : Nat) (exponent : Int) : Int :=
  ((Nat.log2 significand : Int) + exponent) * 30103 / 100000 + 2

/-- The shortest decimal for a positive double. Twenty grids hold seventeen significant digits and
the slack of the bound they start from. -/
def shortest (significand : Nat) (exponent : Int) : Scaled :=
  ((Interval.of significand exponent).search (leadingExponent significand exponent) 22).getD ⟨0, 0⟩

/-- A decimal written positionally: no exponent, and a point only before a fraction. -/
def Scaled.positional (decimal : Scaled) : String :=
  let digits := Nat.toDigits 10 decimal.digits
  if 0 ≤ decimal.exponent then
    String.ofList (digits ++ List.replicate decimal.exponent.toNat '0')
  else
    let places := (-decimal.exponent).toNat
    let digits := List.replicate (places + 1 - digits.length) '0' ++ digits
    let whole := digits.length - places
    String.ofList (digits.take whole ++ '.' :: digits.drop whole)

def shortestText (value : Binary64) : String :=
  (Double.of value).text fun significand exponent =>
    if significand = 0 then "0" else (shortest significand exponent).positional

end ObjectModel.Decimal
