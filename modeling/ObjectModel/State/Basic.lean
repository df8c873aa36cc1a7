import ObjectModel.Fault
import ObjectModel.Object.Heap
import Std.Data.TreeSet

/-!
# The state of a running program

All that a program shares: the objects, memory and files; the scopes and the frames of calls under
way; the pending error; the tables of methods; and what holds objects from outside the heap.
-/

namespace ObjectModel

/-- Limits fixed at the start. -/
structure Limits where
  /-- Calls and delegations nested this deep raise an error. -/
  depth : Nat := 1024
  /-- Reads by line stop one byte short of this many. -/
  lineChunk : Nat := 4096
  deriving DecidableEq, Repr

/-- Where printed text goes. -/
inductive Sink where
  | capture (text : String)
  | discard
  deriving DecidableEq, Repr

namespace Sink

def print (sink : Sink) (text : String) : Sink :=
  match sink with
  | .capture old => .capture (old ++ text)
  | .discard => .discard

def text : Sink → String
  | .capture text => text
  | .discard => ""

def clear : Sink → Sink
  | .capture _ => .capture ""
  | .discard => .discard

end Sink

/-- An error under way, with the calls that were under way when it was raised, innermost first. -/
structure Pending where
  error : Ref
  traceback : Ref
  deriving DecidableEq, Repr

/-- What happened in a run, where its end need not show it. -/
inductive Event where
  /-- An error was raised while these calls were under way, innermost first. -/
  | raised (error : Ref) (frames : List Ref)
  /-- A buffer was made of an address and a length; nobody answers for the memory there. -/
  | foreign
  /-- The payloads of two objects were exchanged. -/
  | exchanged (a b : Ref)
  deriving DecidableEq, Repr

/-- The state of a running program. -/
structure State where
  heap : Heap := {}
  memory : Memory := .empty
  files : FileStore := {}
  /-- The object that stands for no value. -/
  nothing : Ref
  globals : Ref
  /-- The table of method maps by kind name. -/
  methods : Ref
  /-- The scopes, innermost first; the last is the globals. -/
  scopes : List Ref
  /-- The callables under way, innermost first. -/
  frames : List Ref := []
  /-- How many lookups are passed on from map to map at present. -/
  delegations : Nat := 0
  pending : Option Pending := none
  /-- Objects held on request, as often as they are held. -/
  pins : List Ref := []
  /-- The indices of the containers shown so far, while a text is being made. -/
  shown : Option (Std.TreeSet Nat) := none
  limits : Limits := {}
  sink : Sink := .capture ""
  /-- Objects held by operations under way, one group for each of them. -/
  held : List (List Ref) := []
  /-- Objects held by the embedding program, as often as they are held. -/
  hostHeld : List Ref := []
  /-- What happened so far, last first. No action reads it: it is there for what is said of runs. -/
  trail : List Event := []

namespace State

def payload (state : State) (object : Ref) : Payload := state.heap.get object

def kind (state : State) (object : Ref) : Kind := (state.payload object).kind

/-- The bytes of an object that can name an attribute: a string's, or those of a buffer of known
size before its first zero byte. -/
def nameBytes? (state : State) (object : Ref) : Option Bytes :=
  match state.payload object with
  | .string text => some (Bytes.ofText text)
  | .buffer buffer => buffer.textBytes? state.memory
  | _ => none

def isNamed (state : State) (object : Ref) (name : String) : Bool :=
  match state.payload object with
  | .string text => text = name
  | .buffer buffer => buffer.textBytes? state.memory == some (Bytes.ofText name)
  | _ => false

def isCallable (state : State) (object : Ref) : Bool := (state.payload object).isCallable

/-- How deep calls and delegations are nested. -/
def depth (state : State) : Nat := state.frames.length + state.delegations

def locals (state : State) : Ref := state.scopes.headD state.globals

end State

end ObjectModel
