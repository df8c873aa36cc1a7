/-!
# Floats by their bits

A float is its sixty-four bits. The bits tell apart what is not a number in many ways; memory keeps
them, and an operation hands on those of its first operand that is not a number.
-/

namespace ObjectModel

/-- A float of double precision. -/
structure Binary64 where
  bits : UInt64
  deriving DecidableEq, Repr, Inhabited

namespace Binary64

def zero : Binary64 := ⟨0⟩

def nan : Binary64 := ⟨0x7FF8000000000000⟩

/-- What an operation on numbers gives when it has no result. -/
def invalid : Binary64 := ⟨0xFFF8000000000000⟩

def isNaN (value : Binary64) : Bool := 0x7FF0000000000000 < (value.bits &&& 0x7FFFFFFFFFFFFFFF)

/-- Whether the bits stand for no number and lack the bit that arithmetic sets in such bits. No
operation overlooks such an operand. -/
def isSignaling (value : Binary64) : Bool :=
  value.isNaN && value.bits &&& 0x0008000000000000 == 0

def quiet (value : Binary64) : Binary64 := ⟨value.bits ||| 0x0008000000000000⟩

def toFloat (value : Binary64) : Float := Float.ofBits value.bits

def ofFloat (value : Float) : Binary64 := ⟨value.toBits⟩

/-- The result of an operation. One that is not a number takes its bits from the first operand that
is none either. Some powers are numbers whatever one operand is; they are none all the same for a
signaling operand. -/
def operate (operation : Float → Float → Float) (left right : Binary64) : Binary64 :=
  let result := operation left.toFloat right.toFloat
  if result.isNaN || left.isSignaling || right.isSignaling then
    if left.isNaN then left.quiet else if right.isNaN then right.quiet else invalid
  else ofFloat result

def isNegative (value : Binary64) : Bool := 0x8000000000000000 ≤ value.bits

def negate (value : Binary64) : Binary64 := ⟨value.bits ^^^ 0x8000000000000000⟩

/-- Whether the float is an odd integer: its last bit that counts stands for one. -/
def isOddInteger (value : Binary64) : Bool :=
  let field := value.bits.toNat / Nat.pow 2 52 % Nat.pow 2 11
  let significand := value.bits.toNat % Nat.pow 2 52 + Nat.pow 2 52
  0x3FF ≤ field && significand * Nat.pow 2 (field - 0x3FF) % Nat.pow 2 53 == Nat.pow 2 52

/-- The power of two floats. An odd exponent takes the minus sign from a base that is not a
number. -/
def pow (base exponent : Binary64) : Binary64 :=
  let result := operate Float.pow base exponent
  if base.isNaN && base.isNegative && exponent.isOddInteger then result.negate else result

def isZero (value : Binary64) : Bool := value.toFloat == 0.0

/-- The place of a number among all numbers: those of one sign are in the order of their bits, and the
two zeros are in one place. -/
def rank (value : Binary64) : Int :=
  let magnitude := (value.bits &&& 0x7FFFFFFFFFFFFFFF).toNat
  if value.isNegative then -magnitude else magnitude

/-- The three-way order of two floats, unless one is not a number. -/
def order? (left right : Binary64) : Option Ordering :=
  if left.isNaN || right.isNaN then none else some (compare left.rank right.rank)

def ofInt (value : Int64) : Binary64 := ofFloat value.toFloat

/-- The int nearest to a float on the side of zero, within the range of ints. -/
def toInt (value : Binary64) : Int64 := value.toFloat.toInt64

/-- The bits of the nearest float of single precision. What is not a number keeps its sign and the
upper bits of its significand. -/
def toSingle (value : Binary64) : UInt32 :=
  if value.isNaN then
    let sign : UInt64 := (value.bits >>> 32) &&& 0x80000000
    let payload : UInt64 := (value.bits >>> 29) &&& 0x3FFFFF
    (sign ||| payload ||| 0x7FC00000).toUInt32
  else value.toFloat.toFloat32.toBits

def ofSingle (bits : UInt32) : Binary64 :=
  if 0x7F800000 < (bits &&& 0x7FFFFFFF) then
    let sign : UInt64 := (bits &&& 0x80000000).toUInt64 <<< 32
    let payload : UInt64 := (bits &&& 0x3FFFFF).toUInt64 <<< 29
    ⟨sign ||| payload ||| 0x7FF8000000000000⟩
  else ofFloat (Float32.ofBits bits).toFloat

end Binary64

end ObjectModel
