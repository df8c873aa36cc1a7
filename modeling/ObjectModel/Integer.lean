/-!
# Wrapping 64-bit arithmetic

Sums, differences and products of `Int64` wrap, and its division goes toward zero. What is left is
the power, the shifts and the sign of an order.
-/

namespace ObjectModel.Integer

/-- A power under way: the product of the factors so far, the factor of the next round, and what is left
of the exponent. -/
structure Squaring where
  product : Int64 := 1
  factor : Int64
  exponent : Nat

namespace Squaring

/-- One round: the factor is multiplied in when the exponent is odd. It is squared, and the exponent is
halved. -/
def round (power : Squaring) : Squaring where
  product := if power.exponent % 2 = 1 then power.product * power.factor else power.product
  factor := power.factor * power.factor
  exponent := power.exponent / 2

def finish (power : Squaring) : Int64 :=
  if power.exponent = 0 then power.product else power.round.finish
  termination_by power.exponent
  decreasing_by exact Nat.div_lt_self (Nat.pos_of_ne_zero ‹_›) (by decide)

end Squaring

/-- The power; a negative exponent gives the reciprocal of the power, cut toward zero. -/
def pow (base exponent : Int64) : Int64 :=
  if exponent < 0 then
    if base = 1 then 1
    else if base = -1 then if exponent % 2 = 0 then 1 else -1
    else 0
  else Squaring.finish { factor := base, exponent := exponent.toInt.toNat }

/-- How far a shift by `amount` goes: the amount modulo the word's width. -/
def shiftAmount (amount : Int64) : Int64 := amount &&& 63

def shiftLeft (value amount : Int64) : Int64 := value <<< shiftAmount amount

def shiftRight (value amount : Int64) : Int64 := value >>> shiftAmount amount

def order (a b : Int64) : Ordering := if a < b then .lt else if b < a then .gt else .eq

def ofOrdering : Ordering → Int64
  | .lt => -1
  | .eq => 0
  | .gt => 1

def sign (value : Int64) : Int64 := ofOrdering (order value 0)

/-- A length as a number; no length is beyond the largest one. -/
def ofLength (length : Nat) : Int64 := Int64.ofNat (min length Int64.maxValue.toInt.toNat)

end ObjectModel.Integer
