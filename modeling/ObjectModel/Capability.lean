import ObjectModel.Kind
import ObjectModel.Operation

/-!
# Which operations a kind answers

Every kind answers a few operations in a shared way and some in its own. What a kind can do, such as
being called, is read off the operations it answers.
-/

namespace ObjectModel

namespace Operation

/-- Operations that every kind answers. -/
def shared : List Operation := [.swap, .compare, .toText, .toBuffer, .represent, .init, .free]

end Operation

namespace Kind

/-- Operations that a kind answers in its own way. -/
def ownOperations : Kind → List Operation
  | .singlet => [.toText, .toBuffer]
  | .int => [.add, .sub, .mul, .div, .mod, .pow, .bitAnd, .bitOr, .bitXor, .shiftLeft, .shiftRight,
      .bitNot, .compare, .toInt, .toFloat, .toText]
  | .float => [.add, .sub, .mul, .div, .pow, .compare, .toInt, .toFloat, .toText]
  | .string => [.add, .mul, .compare, .index, .length, .iterate, .toInt, .toFloat, .toText,
      .toBuffer, .represent]
  | .list => [.add, .mul, .compare, .index, .setIndex, .length, .iterate, .toText, .represent]
  | .map => [.add, .call, .index, .setIndex, .length, .iterate, .toText, .represent]
  | .cell => [.toText, .represent]
  | .function => [.call, .index, .setIndex, .toText]
  | .native => [.call, .toText]
  | .statement | .expression => [.call, .index, .setIndex, .toText]
  | .buffer => [.add, .mul, .compare, .index, .length, .iterate, .toInt, .toFloat, .toText,
      .toBuffer, .represent]
  | .library => [.index, .toText]
  | .symbol => [.call, .index, .setIndex, .toText]
  | .stream => [.shiftLeft, .shiftRight, .index, .toText]

def answers (kind : Kind) (operation : Operation) : Bool :=
  operation ∈ kind.ownOperations || operation ∈ Operation.shared

def operations (kind : Kind) : List Operation := Operation.all.filter kind.answers

/-- What a kind can do, one bit each: be called, be looked into, be walked over, be measured, and
name an attribute. -/
def flags (kind : Kind) : Nat :=
  (if kind.answers .call then 1 else 0) + (if kind.answers .index then 2 else 0) +
    (if kind.answers .iterate then 4 else 0) + (if kind.answers .length then 8 else 0) +
    (if kind.isName then 16 else 0)

end Kind

end ObjectModel
