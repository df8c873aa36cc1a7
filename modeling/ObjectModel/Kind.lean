/-!
# Kinds of objects

Every object is of one of fifteen kinds. The kind decides how the object answers operations.
-/

namespace ObjectModel

/-- The kind of an object. -/
inductive Kind where
  | singlet
  | int
  | float
  | string
  | list
  | map
  | cell
  | function
  | native
  | statement
  | expression
  | buffer
  | library
  | symbol
  | stream
  deriving DecidableEq, Repr

namespace Kind

def all : List Kind :=
  [.singlet, .int, .float, .string, .list, .map, .cell, .function, .native, .statement,
   .expression, .buffer, .library, .symbol, .stream]

def name : Kind → String
  | .singlet => "singlet"
  | .int => "int"
  | .float => "float"
  | .string => "string"
  | .list => "list"
  | .map => "map"
  | .cell => "mcell"
  | .function => "function"
  | .native => "cfunction"
  | .statement => "stmtnode"
  | .expression => "exprnode"
  | .buffer => "buffer"
  | .library => "dylib"
  | .symbol => "dysym"
  | .stream => "stream"

def ofName? (name : String) : Option Kind := all.find? (·.name = name)

theorem mem_all (kind : Kind) : kind ∈ all := by
  cases kind <;> simp [all]

/-- Strings and buffers can name an attribute. -/
def isName : Kind → Bool
  | .string | .buffer => true
  | _ => false

end Kind

end ObjectModel
