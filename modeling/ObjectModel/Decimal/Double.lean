import ObjectModel.Binary64

/-!
# Doubles as integers times powers of two

A finite double is `significand · 2 ^ exponent` with its sign apart; the text of a double is made
from these numbers alone.
-/

namespace ObjectModel.Decimal

/-- What a double is: not a number, an infinity, or a finite value. -/
inductive Double where
  | nan
  | infinite (negative : Bool)
  | finite (negative : Bool) (significand : Nat) (exponent : Int)
  deriving DecidableEq, Repr

def Double.ofBits (bits : UInt64) : Double :=
  let negative : Bool := bits.toNat / Nat.pow 2 63 == 1
  let field : Nat := bits.toNat / Nat.pow 2 52 % Nat.pow 2 11
  let fraction : Nat := bits.toNat % Nat.pow 2 52
  if field = 0x7FF then if fraction = 0 then .infinite negative else .nan
  else if field = 0 then .finite negative fraction (-1074)
  else .finite negative (fraction + Nat.pow 2 52) ((field : Int) - 1075)

def Double.of (value : Binary64) : Double := .ofBits value.bits

/-- The text of a double whose finite magnitudes are written by `magnitude`: `NaN`, `inf`, and a
minus sign before every negative value, zero included. -/
def Double.text (magnitude : Nat → Int → String) : Double → String
  | .nan => "NaN"
  | .infinite negative => if negative then "-inf" else "inf"
  | .finite negative significand exponent =>
    (if negative then "-" else "") ++ magnitude significand exponent

end ObjectModel.Decimal
