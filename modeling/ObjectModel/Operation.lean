/-!
# Operations

All kinds of objects are worked on through the same twenty-six operations. The object at the head
of the argument list decides which behaviour answers.
-/

namespace ObjectModel

/-- An operation on objects. -/
inductive Operation where
  | add
  | sub
  | mul
  | div
  | mod
  | pow
  /-- Exchanges the payloads of two objects. -/
  | swap
  | bitAnd
  | bitOr
  | bitXor
  | shiftLeft
  | shiftRight
  | bitNot
  | compare
  | call
  | index
  | setIndex
  | length
  | iterate
  | toInt
  | toFloat
  | toText
  | toBuffer
  | represent
  | init
  | free
  deriving DecidableEq, Repr

namespace Operation

def all : List Operation :=
  [.add, .sub, .mul, .div, .mod, .pow, .swap, .bitAnd, .bitOr, .bitXor, .shiftLeft, .shiftRight,
   .bitNot, .compare, .call, .index, .setIndex, .length, .iterate, .toInt, .toFloat, .toText,
   .toBuffer, .represent, .init, .free]

def name : Operation → String
  | .add => "add"
  | .sub => "sub"
  | .mul => "mul"
  | .div => "div"
  | .mod => "mod"
  | .pow => "pow"
  | .swap => "tbang"
  | .bitAnd => "band"
  | .bitOr => "bor"
  | .bitXor => "bxor"
  | .shiftLeft => "blsh"
  | .shiftRight => "brsh"
  | .bitNot => "bnot"
  | .compare => "cmp"
  | .call => "call"
  | .index => "index"
  | .setIndex => "setindex"
  | .length => "len"
  | .iterate => "iter"
  | .toInt => "toint"
  | .toFloat => "tofloat"
  | .toText => "tostring"
  | .toBuffer => "tobuffer"
  | .represent => "repr"
  | .init => "init"
  | .free => "free"

def ofName? (name : String) : Option Operation := all.find? (·.name = name)

/-- The operation at a place in the order. -/
def ofIndex? (index : Int64) : Option Operation :=
  if index < 0 then none else all[index.toInt.toNat]?

theorem mem_all (operation : Operation) : operation ∈ all := by
  cases operation <;> simp [all]

end Operation

end ObjectModel
