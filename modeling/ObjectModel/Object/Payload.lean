import ObjectModel.Builtin.Name
import ObjectModel.Code.Basic
import ObjectModel.Files.Stream
import ObjectModel.Kind
import ObjectModel.Memory.View
import ObjectModel.Operation

/-!
# Objects and what they hold

An object is a reference to a payload. References are identities: two objects are the same exactly
when their references are equal. Payloads name other objects by reference, so that every graph of
objects can be expressed.
-/

namespace ObjectModel

structure Ref where
  index : Nat
  deriving DecidableEq, Repr, Inhabited

/-- What a native function runs. -/
inductive Native where
  | builtin (function : Builtin)
  /-- The behavior of one kind for one operation. -/
  | behavior (kind : Kind) (operation : Operation)
  /-- A function that the embedding program supplies under a name. -/
  | host (name : String)
  deriving DecidableEq, Repr

def Native.name : Native → String
  | .builtin function => function.name
  | .behavior _ operation => operation.name
  | .host name => name

structure Function where
  name : Option String
  params : List String
  /-- The parameter that takes surplus arguments as a list. -/
  rest : Option String
  body : Statement
  /-- The scope it was made in, a map. -/
  closure : Ref
  attributes : Ref
  annotations : Ref

/-- What a buffer keeps besides memory. -/
inductive Resource where
  | object (held : Ref)
  /-- A position in a container, which the position does not keep alive. -/
  | cursor (position : Nat) (container : Ref)
  deriving DecidableEq, Repr

/-- Who answers for a buffer's memory. -/
inductive Ownership where
  | borrowed
  | owned
  | resource (resource : Resource)
  deriving DecidableEq, Repr

/-- A view of memory with what keeps it valid: the block it owns, or the objects it is anchored to. -/
structure Buffer where
  view : View
  ownership : Ownership := .borrowed
  anchors : List Ref := []
  deriving DecidableEq, Repr

/-- What an object holds. -/
inductive Payload where
  | singlet (name : String)
  | int (value : Int64)
  | float (value : Binary64)
  | string (value : String)
  | list (items : Array Ref)
  /-- The cells in the order of insertion. -/
  | map (cells : List Ref)
  | cell (key value : Ref)
  | function (function : Function)
  | native (function : Native)
  | statement (node : Option Statement)
  | expression (node : Option Expression)
  | buffer (buffer : Buffer)
  | library (handle : Nat) (path : String)
  | symbol (address : Nat) (name : String)
  | stream (stream : Stream)

namespace Payload

def kind : Payload → Kind
  | .singlet _ => .singlet
  | .int _ => .int
  | .float _ => .float
  | .string _ => .string
  | .list _ => .list
  | .map _ => .map
  | .cell .. => .cell
  | .function _ => .function
  | .native _ => .native
  | .statement _ => .statement
  | .expression _ => .expression
  | .buffer _ => .buffer
  | .library .. => .library
  | .symbol .. => .symbol
  | .stream _ => .stream

/-- The objects that the payload keeps alive, each as often as it does. -/
def references : Payload → List Ref
  | .list items => items.toList
  | .map cells => cells
  | .cell key value => [key, value]
  | .function made => [made.closure, made.attributes, made.annotations]
  | .buffer window =>
    match window.ownership with
    | .resource (.object held) => held :: window.anchors
    | _ => window.anchors
  | _ => []

def items? : Payload → Option (Array Ref)
  | .list items => some items
  | _ => none

def cells? : Payload → Option (List Ref)
  | .map cells => some cells
  | _ => none

def cellParts? : Payload → Option (Ref × Ref)
  | .cell key value => some (key, value)
  | _ => none

def int? : Payload → Option Int64
  | .int value => some value
  | _ => none

def float? : Payload → Option Binary64
  | .float value => some value
  | _ => none

def string? : Payload → Option String
  | .string value => some value
  | _ => none

def stringOrEmpty (payload : Payload) : String := payload.string?.getD ""

def buffer? : Payload → Option Buffer
  | .buffer window => some window
  | _ => none

def function? : Payload → Option Function
  | .function made => some made
  | _ => none

def isCallable (payload : Payload) : Bool := payload.kind = .function || payload.kind = .native

end Payload

namespace Buffer

def bytes? (buffer : Buffer) (memory : Memory) : Option Bytes := buffer.view.bytes? memory

def textBytes? (buffer : Buffer) (memory : Memory) : Option Bytes :=
  (buffer.bytes? memory).map Bytes.untilZero

/-- The text of a buffer: its bytes before the first zero byte. -/
def text (buffer : Buffer) (memory : Memory) : String :=
  match buffer.textBytes? memory with
  | some bytes => bytes.toText
  | none => "<UNSIZED_BUFFER>"

/-- The buffer, keeping one more object alive. -/
def anchor (buffer : Buffer) (object : Ref) : Buffer :=
  { buffer with anchors := buffer.anchors ++ [object] }

end Buffer

end ObjectModel
