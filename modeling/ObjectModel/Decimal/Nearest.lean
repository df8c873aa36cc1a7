/-!
# The double nearest to a fraction

Rounds a non-negative fraction, or a decimal `m · 10 ^ e`, to the nearest double; a value halfway
between two goes to the one with the even significand.
-/

namespace ObjectModel.Decimal

/-- The quotient rounded to the nearest integer, a half to the even neighbour. -/
def roundDiv (num den : Nat) : Nat :=
  let quotient := num / den
  let rest := num % den
  if den < 2 * rest ∨ (2 * rest = den ∧ quotient % 2 = 1) then quotient + 1 else quotient

def infinityBits : Nat := 0x7FF * Nat.pow 2 52

/-- The exponent of the last significand bit of the double nearest to `num / den`: fifty-two below
that of the leading bit, and never below that of the smallest double. -/
def unitExponent (num den : Nat) : Int :=
  let guess : Int := (Nat.log2 num : Int) - (Nat.log2 den : Int)
  let below :=
    if 0 ≤ guess then num < den * Nat.pow 2 guess.toNat else num * Nat.pow 2 (-guess).toNat < den
  max ((if below then guess - 1 else guess) - 52) (-1074)

/-- Bits of the double nearest to `num / den`. The biased exponent and the significand are added
as one number, so that a carry out of the significand moves to the next exponent. -/
def nearestBits (num den : Nat) : UInt64 :=
  if num = 0 then 0
  else
    let unit := unitExponent num den
    let significand :=
      if 0 ≤ unit then roundDiv num (den * Nat.pow 2 unit.toNat)
      else roundDiv (num * Nat.pow 2 (-unit).toNat) den
    UInt64.ofNat (min ((unit + 1074).toNat * Nat.pow 2 52 + significand) infinityBits)

/-- A power of ten that a positive number reaches, by its leading bit: a little below `log 2` for
every bit. -/
def lowPlace (n : Nat) : Nat := Nat.log2 n * 30102 / 100000

/-- A power of ten that a number stays below, by its leading bit. -/
def highPlace (n : Nat) : Nat := (Nat.log2 n + 1) * 30103 / 100000 + 1

/-- Bits of the double nearest to `mantissa · 10 ^ exponent`. Values beyond every double on either
side are settled by their order of magnitude alone. -/
def nearestDecimalBits (mantissa : Nat) (exponent : Int) : UInt64 :=
  if mantissa = 0 ∨ exponent + highPlace mantissa < -330 then 0
  else if 310 ≤ exponent + lowPlace mantissa then UInt64.ofNat infinityBits
  else if 0 ≤ exponent then nearestBits (mantissa * Nat.pow 10 exponent.toNat) 1
  else nearestBits mantissa (Nat.pow 10 (-exponent).toNat)

end ObjectModel.Decimal
