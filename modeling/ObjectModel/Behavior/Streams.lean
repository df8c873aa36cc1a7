import ObjectModel.Behavior.Strings

/-!
# Streams as objects

Shifting a value into a stream writes it, shifting an amount out of it reads. Failures of reading and
writing raise errors; a position that cannot be told or reached is -1. On a closed stream every
access raises an error.
-/

namespace ObjectModel.Behavior.Streams

open ObjectModel.Action

def expect (object : Ref) : Action Stream := do
  match ← payload object with
  | .stream stream => return stream
  | other => raise (.mismatch .stream other.kind)

/-- The result of a stream operation; a failure other than a closed stream is a fault. -/
def orFault (fault : Fault) (result : Except StreamFailure α) : Action α :=
  match result with
  | .ok value => return value
  | .error .closed => raise .streamClosed
  | .error .refused => raise fault

/-- The bytes an object is written as: those of a buffer, and else those of its text. -/
def bytesToWrite (run : Dispatcher) (value : Ref) : Action Bytes := do
  match ← payload value with
  | .buffer buffer => return (buffer.bytes? (← get).memory).getD []
  | _ => return Bytes.ofText (← run.toText value)

def write : Handler := fun machine args => do
  let object ← argument args 0
  let value ← argument args 1
  let bytes ← holding [object, value] (bytesToWrite machine.toDispatcher value)
  let stream ← expect object
  let (stream, files) ← orFault .write (stream.write (← get).files bytes)
  modify fun state => { state with files }
  store object (.stream stream)
  createInt (Integer.ofLength bytes.length)

/-- The amount that a request asks for: all, a line, or a count. Any other name asks for none. -/
def amountOf (run : Dispatcher) (request : Ref) : Action (Option ReadAmount) := do
  match ← nameBytes? request with
  | some name =>
    if name == Bytes.ofText "ALL" then return some .all
    else if name == Bytes.ofText "LINE" then
      return some (.line ((← get).limits.lineChunk - 1))
    else return none
  | none => return some (.count (← run.toInt request).toInt.toNat)

def read : Handler := fun machine args => do
  let object ← argument args 0
  match ← amountOf machine.toDispatcher (← argument args 1) with
  | none => nothing
  | some amount =>
    let stream ← expect object
    let (bytes, stream) ← orFault .read (stream.read (← get).files amount)
    store object (.stream stream)
    createBuffer bytes

def index : Handler := fun _ args => do
  method .stream (← argument args 1)

def handler : Operation → Option Handler
  | .shiftLeft => some write
  | .shiftRight => some read
  | .index => some index
  | .toText => some fun _ _ => createString "<Stream>"
  | _ => none

/-! ## Methods -/

/-- A number for the result of a stream operation, -1 for a failure. -/
def status (number : α → Int64) (result : Except StreamFailure α) : Action Ref :=
  match result with
  | .ok value => createInt (number value)
  | .error .closed => raise .streamClosed
  | .error .refused => createInt (-1)

def seek : Handler := fun machine args => do
  let object ← argument args 0
  let offset ← machine.intArgument args 1
  let origin ← machine.intArgument args 2
  let stream ← expect object
  match stream.seek (← get).files offset.toInt origin.toInt with
  | .ok moved =>
    store object (.stream moved)
    createInt 0
  | .error failure => status (fun _ : Unit => 0) (.error failure)

def tell : Handler := fun _ args => do
  let stream ← expect (← argument args 0)
  status Integer.ofLength (stream.tell (← get).files)

def flush : Handler := fun _ args => do
  let stream ← expect (← argument args 0)
  status (fun _ => 0) stream.flush

def eof : Handler := fun _ args => do
  let stream ← expect (← argument args 0)
  createInt (if stream.atEnd then 1 else 0)

def close : Handler := fun _ args => do
  let object ← argument args 0
  let stream ← expect object
  store object (.stream stream.close)
  nothing

def openFile : Handler := fun machine args => do
  let path ← machine.textArgument args 0
  let code ← machine.intArgument args 1
  match FileMode.ofCode? code with
  | none => raise (.fileMode code)
  | some mode =>
    match Stream.open? (← get).files path mode with
    | none => raise .fileOpen
    | some (stream, files) =>
      modify fun state => { state with files }
      create (.stream stream)

end ObjectModel.Behavior.Streams
