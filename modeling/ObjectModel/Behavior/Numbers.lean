import ObjectModel.Decimal.Fixed
import ObjectModel.Machine

/-!
# Ints and floats

The right operand is converted to the kind of the left one. Ints wrap at 64 bits. Ints and floats are
ordered among their own kind only.
-/

namespace ObjectModel.Behavior.Numbers

open ObjectModel.Action

def itself : Handler := fun _ args => argument args 0

/-! ## Ints -/

def intOperands (machine : Machine) (args : List Ref) : Action (Int64 × Int64) := do
  let left ← machine.intArgument args 0
  let right ← machine.intArgument args 1
  return (left, right)

def onInts (operation : Int64 → Int64 → Int64) : Handler := fun machine args => do
  let (left, right) ← intOperands machine args
  createInt (operation left right)

def onIntsNonzero (fault : Fault) (operation : Int64 → Int64 → Int64) : Handler :=
  fun machine args => do
    let (left, right) ← intOperands machine args
    if right = 0 then raise fault
    createInt (operation left right)

def intNot : Handler := fun machine args => do
  createInt (~~~(← machine.intArgument args 0))

/-- The order of two ints; anything else is not equal to an int. -/
def intCompare : Handler := fun _ args => do
  match ← payload (← argument args 0), ← payload (← argument args 1) with
  | .int left, .int right => createInt (Integer.ofOrdering (Integer.order left right))
  | _, _ => createInt 1

/-- The int of an argument; any other object counts as zero. -/
def intOrZero (args : List Ref) : Action Int64 :=
  return (← payload (← argument args 0)).int?.getD 0

def intToFloat : Handler := fun _ args => do
  create (.float (.ofInt (← intOrZero args)))

def intToText : Handler := fun _ args => do
  createString (toString (← intOrZero args).toInt)

def intHandler : Operation → Option Handler
  | .add => some (onInts (· + ·))
  | .sub => some (onInts (· - ·))
  | .mul => some (onInts (· * ·))
  | .div => some (onIntsNonzero .integerDivisionByZero (· / ·))
  | .mod => some (onIntsNonzero .integerModulusByZero (· % ·))
  | .pow => some (onInts Integer.pow)
  | .bitAnd => some (onInts (· &&& ·))
  | .bitOr => some (onInts (· ||| ·))
  | .bitXor => some (onInts (· ^^^ ·))
  | .shiftLeft => some (onInts Integer.shiftLeft)
  | .shiftRight => some (onInts Integer.shiftRight)
  | .bitNot => some intNot
  | .compare => some intCompare
  | .toInt => some itself
  | .toFloat => some intToFloat
  | .toText => some intToText
  | _ => none

/-! ## Floats -/

def floatOperands (machine : Machine) (args : List Ref) : Action (Binary64 × Binary64) := do
  let left ← machine.floatArgument args 0
  let right ← machine.floatArgument args 1
  return (left, right)

def onFloats (operation : Binary64 → Binary64 → Binary64) : Handler := fun machine args => do
  let (left, right) ← floatOperands machine args
  create (.float (operation left right))

def floatDiv : Handler := fun machine args => do
  let (left, right) ← floatOperands machine args
  if right.isZero then raise .floatDivisionByZero
  create (.float (.operate (· / ·) left right))

/-- The order of two floats; what cannot be ordered is not equal. -/
def floatCompare : Handler := fun _ args => do
  match ← payload (← argument args 0), ← payload (← argument args 1) with
  | .float left, .float right =>
    createInt (((left.order? right).map Integer.ofOrdering).getD 1)
  | _, _ => createInt 1

def floatOrZero (args : List Ref) : Action Binary64 :=
  return (← payload (← argument args 0)).float?.getD .zero

/-- The int nearest to a float on the side of zero, within the range of ints. -/
def floatToInt : Handler := fun _ args => do
  createInt (← floatOrZero args).toInt

def floatToText : Handler := fun _ args => do
  createString (Decimal.fixedText 6 (← floatOrZero args))

def floatHandler : Operation → Option Handler
  | .add => some (onFloats (.operate (· + ·)))
  | .sub => some (onFloats (.operate (· - ·)))
  | .mul => some (onFloats (.operate (· * ·)))
  | .div => some floatDiv
  | .pow => some (onFloats .pow)
  | .compare => some floatCompare
  | .toInt => some floatToInt
  | .toFloat => some itself
  | .toText => some floatToText
  | _ => none

end ObjectModel.Behavior.Numbers
