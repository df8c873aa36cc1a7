import ObjectModel.Integer
import ObjectModel.State.Action

/-!
# The running machine

Behaviors work on objects through operations, whatever the kind of the object: they are given a
dispatcher for these, and the program's surroundings. The dispatcher's conversions check that an
answer is of the kind they promise.
-/

namespace ObjectModel

/-- Runs the behaviors of kinds, and grants a number of rounds to loops that have no bound of their
own. -/
structure Dispatcher where
  behave : Kind → Operation → List Ref → Action Ref
  rounds : Nat

/-- Runs code trees. A statement gives the value that it returns, or no value. -/
structure Evaluator where
  execute : Dispatcher → Statement → Action Ref
  evaluate : Dispatcher → Expression → Action Ref

/-- Finds native libraries, by path, and the addresses of their symbols. -/
structure Loader where
  openLibrary : String → Option Nat
  symbol : Nat → String → Option Nat

/-- The surroundings of a program: what may run its code, what finds native libraries, and native
functions under names of their own. -/
structure Host where
  evaluator : Option Evaluator := none
  loader : Option Loader := none
  native : String → Option (Dispatcher → List Ref → Action Ref) := fun _ => none

structure Machine extends Dispatcher where
  host : Host

/-- How objects of one kind answer one operation. The object itself is the first argument. -/
abbrev Handler := Machine → List Ref → Action Ref

namespace Dispatcher

open ObjectModel.Action

variable (run : Dispatcher)

/-- Runs an operation as the kind of the first argument answers it; without arguments, as singlets
do. -/
def dispatch (operation : Operation) (args : List Ref) : Action Ref := do
  let kind ← match args with
    | [] => pure .singlet
    | subject :: _ => kind subject
  run.behave kind operation args

def unary (operation : Operation) (object : Ref) : Action Ref := run.dispatch operation [object]

def binary (operation : Operation) (left right : Ref) : Action Ref :=
  holding [left, right] (run.dispatch operation [left, right])

def expectInt (object : Ref) : Action Int64 := do
  match ← payload object with
  | .int value => return value
  | other => raise (.mismatch .int other.kind)

/-- The text that an operation answered with: a string, or what can be a name. -/
def expectText (object : Ref) : Action String := do
  match ← payload object with
  | .string value => return value
  | other =>
    match ← nameBytes? object with
    | some bytes => return bytes.toText
    | none => raise (.mismatch .string other.kind)

/-- The three-way order of two objects as -1, 0 or 1; an answer that is no int counts as 1. -/
def compare (left right : Ref) : Action Int64 := do
  let answer ← run.binary .compare left right
  match ← payload answer with
  | .int value => return Integer.sign value
  | _ => return 1

def index (object key : Ref) : Action Ref := run.binary .index object key

def setIndex (object key value : Ref) : Action Unit :=
  discard (holding [object, key, value] (run.dispatch .setIndex [object, key, value]))

def call (callee : Ref) (args : List Ref) : Action Ref :=
  holding (callee :: args) (run.dispatch .call (callee :: args))

def length (object : Ref) : Action Int64 := do
  expectInt (← run.unary .length object)

def iterate (object : Ref) : Action Ref := run.unary .iterate object

def toInt (object : Ref) : Action Int64 := do
  match ← payload object with
  | .int value => return value
  | _ => expectInt (← run.unary .toInt object)

def toFloat (object : Ref) : Action Binary64 := do
  match ← payload object with
  | .float value => return value
  | _ =>
    let converted ← run.unary .toFloat object
    match ← payload converted with
    | .float value => return value
    | other => raise (.mismatch .float other.kind)

def toText (object : Ref) : Action String := do
  match ← payload object with
  | .string value => return value
  | _ => expectText (← run.unary .toText object)

def toBuffer (object : Ref) : Action Ref := run.unary .toBuffer object

def represent (object : Ref) : Action String := do
  expectText (← run.unary .represent object)

/-! ## Conversions of arguments -/

def intArgument (args : List Ref) (index : Nat) : Action Int64 := do
  run.toInt (← argument args index)

def floatArgument (args : List Ref) (index : Nat) : Action Binary64 := do
  run.toFloat (← argument args index)

def textArgument (args : List Ref) (index : Nat) : Action String := do
  let object ← argument args index
  holding [object] (run.toText object)

def bufferArgument (args : List Ref) (index : Nat) : Action Ref := do
  let object ← argument args index
  holding [object] (run.toBuffer object)

/-- The integer an argument stands for, or another when it is missing or no value. -/
def intArgumentOr (args : List Ref) (index : Nat) (fallback : Int64) : Action Int64 := do
  match ← optional args index with
  | some object => run.toInt object
  | none => return fallback

end Dispatcher

end ObjectModel
