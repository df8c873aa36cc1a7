import ObjectModel.Kind
import ObjectModel.Operation

/-!
# Faults

The causes for which the model itself raises an error, and the text that is raised.
-/

namespace ObjectModel

inductive UnsizedUse where
  | concatenate
  | repeated
  | subrange
  | split
  | find
  deriving DecidableEq, Repr

/-- The cause of a raised error. -/
inductive Fault where
  | undefined (operation : Operation) (kind : Kind)
  | mismatch (expected found : Kind)
  | integerDivisionByZero
  | integerModulusByZero
  | floatDivisionByZero
  | addToList
  | addToMap
  | mapNotCallable
  | applyNonList
  | rawGetNonMap
  | rawSetNonMap
  | ordOutOfBounds
  | absentNode
  | noEvaluator
  | unsizedBuffer (use : UnsizedUse)
  | bufferSize (size : Int64)
  | allocation (size : Nat)
  | fileMode (code : Int64)
  | fileOpen
  | read
  | write
  | streamClosed
  | frameImbalance
  | depth (limit : Nat)
  deriving DecidableEq, Repr

def UnsizedUse.word : UnsizedUse → String
  | .concatenate => "Concatenate"
  | .repeated => "Repeat"
  | .subrange => "Subrange"
  | .split => "split"
  | .find => "find"

def Fault.message : Fault → String
  | .undefined operation kind => s!"Undefined method ({operation.name} on {kind.name})"
  | .mismatch expected found => s!"Expected {expected.name}, got {found.name}"
  | .integerDivisionByZero => "integer divide by zero"
  | .integerModulusByZero => "integer modulus by zero"
  | .floatDivisionByZero => "floating division by zero"
  | .addToList => "Adding list to non-list"
  | .addToMap => "Adding map to non-map"
  | .mapNotCallable => "Call map without call method"
  | .applyNonList => "apply with non-list"
  | .rawGetNonMap => "Rawget of non-map"
  | .rawSetNonMap => "Rawset of non-map"
  | .ordOutOfBounds => "Compute ord of out-of-bounds index"
  | .absentNode => "Access NULL AST node"
  | .noEvaluator => "No evaluator attached"
  | .unsizedBuffer use => s!"{use.word} with unsized buffer"
  | .bufferSize size => s!"invalid buffer size {size.toInt}"
  | .allocation size => s!"allocation of {size} bytes failed"
  | .fileMode _ => "Bad file open mode"
  | .fileOpen => "File open failed"
  | .read => "IO read error"
  | .write => "IO write error"
  | .streamClosed => "Operation on closed stream"
  | .frameImbalance => "Function stack imbalance"
  | .depth limit => s!"maximum recursion depth of {limit} exceeded"

end ObjectModel
