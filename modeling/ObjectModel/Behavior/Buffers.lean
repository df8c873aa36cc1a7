import ObjectModel.Behavior.Strings

/-!
# Buffers

A buffer looks at memory through its view. What is built from its bytes owns a copy; what is cut out
of it by an index or a walk looks at the same memory and is anchored to it. A buffer stored as an
address in another is anchored there too.
-/

namespace ObjectModel.Behavior.Buffers

open ObjectModel.Action

def viewOf (object : Ref) : Action View := do
  match ← payload object with
  | .buffer buffer => return buffer.view
  | other => raise (.mismatch .buffer other.kind)

def sizedBytes (use : UnsizedUse) (object : Ref) : Action Bytes := do
  match (← viewOf object).bytes? (← get).memory with
  | some bytes => return bytes
  | none => raise (.unsizedBuffer use)

/-- Makes a buffer that looks at memory without owning it. -/
def createBorrowed (view : View) (anchors : List Ref) : Action Ref :=
  create (.buffer { view, anchors })

def add : Handler := fun machine args => do
  let buffer ← argument args 0
  let left ← sizedBytes .concatenate buffer
  let right ← holding [buffer] (machine.bufferArgument args 1)
  createBuffer (left ++ (← sizedBytes .concatenate right))

def mul : Handler := fun machine args => do
  let bytes ← sizedBytes .repeated (← argument args 0)
  let times ← machine.intArgument args 1
  createBuffer (← Strings.repeated 1 bytes times)

/-- The order of two views. Known sizes that differ are not equal; a view of unknown size is taken
to be as long as the other, and two of them are not equal. -/
def order (memory : Memory) : View → View → Int64
  | .sized a n, .sized b m =>
    if n ≠ m then 1
    else Integer.ofOrdering (Bytes.order (View.bytesAt memory a n) (View.bytesAt memory b m))
  | .sized a n, .unsized b =>
    Integer.ofOrdering (Bytes.order (View.bytesAt memory a n) (View.bytesAt memory b n))
  | .unsized a, .sized b m =>
    Integer.ofOrdering (Bytes.order (View.bytesAt memory a m) (View.bytesAt memory b m))
  | .unsized _, .unsized _ => 1

def compare : Handler := fun machine args => do
  let left ← viewOf (← argument args 0)
  let other ← argument args 1
  match ← kind other with
  | .buffer =>
    let right ← viewOf other
    createInt (order (← get).memory left right)
  | .string =>
    let right ← viewOf (← machine.toBuffer other)
    createInt (order (← get).memory left right)
  | _ => createInt 1

/-- A method for a name, and else the rest of the buffer from an offset on. -/
def index : Handler := fun machine args => do
  let buffer ← argument args 0
  let key ← argument args 1
  if (← nameBytes? key).isSome then method .buffer key
  else
    let view ← viewOf buffer
    let offset ← machine.toInt key
    match view.from? offset.toInt with
    | some part => createBorrowed part [buffer]
    | none => nothing

/-- The size, or -1 when it is not known. -/
def length : Handler := fun _ args => do
  let size := (← viewOf (← argument args 0)).size
  createInt (Int64.ofInt (min size Int64.maxValue.toInt))

def textBytes (object : Ref) : Action Bytes := do
  match ← payload object with
  | .buffer buffer => return (buffer.textBytes? (← get).memory).getD []
  | _ => return []

def textOf (object : Ref) : Action String := do
  match ← payload object with
  | .buffer buffer => return buffer.text (← get).memory
  | _ => return ""

def toInt : Handler := fun _ args => do
  createInt (Numeral.leadingInt (← textBytes (← argument args 0)))

def toFloat : Handler := fun _ args => do
  create (.float (Numeral.leadingFloat (← textBytes (← argument args 0))))

def toText : Handler := fun _ args => do
  createString (← textOf (← argument args 0))

def toBuffer : Handler := fun _ args => argument args 0

def represent : Handler := fun _ args => do
  let text ← textOf (← argument args 0)
  createString ("'" ++ text ++ "'")

def handler : Operation → Option Handler
  | .add => some add
  | .mul => some mul
  | .compare => some compare
  | .index => some index
  | .length => some length
  | .iterate => some (Iteration.stepper .iterBuffer)
  | .toInt => some toInt
  | .toFloat => some toFloat
  | .toText => some toText
  | .toBuffer => some toBuffer
  | .represent => some represent
  | _ => none

/-! ## Methods -/

def access (machine : Machine) (args : List Ref) (offsetPlace : Nat) :
    Action (View × Option Format × Int64) := do
  let view ← viewOf (← argument args 0)
  let code ← machine.intArgument args 1
  let offset ← machine.intArgumentOr args offsetPlace 0
  return (view, Format.ofCode? code, offset)

/-- A new object for a scalar. An address is a view of unknown size. -/
def createScalar : Scalar → Action Ref
  | .int value => createInt value
  | .float value => create (.float value)
  | .char value => createString (Bytes.toText [value])
  | .bytes value => createString (Bytes.toText value)
  | .address value => createBorrowed (.unsized value) []

def read : Handler := fun machine args => do
  let (view, format, offset) ← access machine args 2
  let memory := (← get).memory
  match format.bind fun format => view.get? memory format offset.toInt with
  | some scalar => createScalar scalar
  | none => nothing

/-- The scalar of a format that an object stands for. A buffer stands for its address. -/
def scalarOf (run : Dispatcher) (format : Format) (value : Ref) : Action Scalar := do
  match format with
  | .char => return .char ((Bytes.ofText (← run.toText value)).headD 0)
  | .float | .double => return .float (← run.toFloat value)
  | .text => return .bytes (Bytes.ofText (← run.toText value))
  | .pointer =>
    match ← payload value with
    | .buffer buffer => return .address buffer.view.address
    | _ => return .address (← run.toInt value).toUInt64
  | _ => return .int (← run.toInt value)

/-- Anchors an object to a buffer. -/
def anchor (object anchored : Ref) : Action Unit := do
  match ← payload object with
  | .buffer buffer => store object (.buffer (buffer.anchor anchored))
  | _ => return

/-- Writes a scalar at an offset. What does not fit is not written. -/
def write : Handler := fun machine args => do
  let target ← argument args 0
  let (view, format, offset) ← access machine args 3
  match format with
  | none => nothing
  | some format =>
    let value ← argument args 2
    let scalar ← holding [target, value] (scalarOf machine.toDispatcher format value)
    match view.set? (← get).memory format offset.toInt scalar with
    | none => nothing
    | some memory =>
      modify fun state => { state with memory }
      if format = .pointer ∧ value ≠ target ∧ (← kind value) = .buffer then anchor target value
      nothing

def address : Handler := fun _ args => do
  createInt (← viewOf (← argument args 0)).address.toInt64

def sub : Handler := fun machine args => do
  let bytes ← sizedBytes .subrange (← argument args 0)
  let low ← machine.intArgumentOr args 1 0
  let high ← machine.intArgumentOr args 2 (Integer.ofLength bytes.length)
  createBuffer (Bytes.slice bytes low.toInt high.toInt)

/-- The parts, between the bytes of a text, of the bytes before the first zero byte. -/
def split : Handler := fun machine args => do
  let buffer ← argument args 0
  let bytes ← sizedBytes .split buffer
  let separators ← holding [buffer] (machine.textArgument args 1)
  Strings.listOfTexts (Bytes.tokens (Bytes.ofText separators) bytes.untilZero)

def find : Handler := fun machine args => do
  let buffer ← argument args 0
  let bytes ← sizedBytes .find buffer
  let needle ← holding [buffer] (machine.bufferArgument args 1)
  let needle ← sizedBytes .find needle
  createInt (Strings.offsetOrMinusOne (Bytes.find? needle bytes))

/-! ## Constructors -/

def ofSize : Handler := fun machine args => do
  let size ← machine.intArgument args 0
  if size < 0 then raise (.bufferSize size)
  let size := size.toInt.toNat
  if Memory.lane < size then raise (.allocation size)
  createBuffer (List.replicate size 0)

def ofText : Handler := fun machine args => do
  createBuffer (Bytes.ofText (← machine.textArgument args 0) ++ [0])

/-- A buffer without bytes that keeps an object alive and tells its address. -/
def ofObject : Handler := fun _ args => do
  let object ← argument args 0
  create (.buffer {
    view := .sized (Heap.address object) 0, ownership := .resource (.object object) })

/-- A view of memory that nobody answers for. -/
def createForeign (address : Address) (length : Nat) : Action Ref := do
  record .foreign
  createBorrowed (.sized address length) []

/-- A view of memory at an address; a negative size is an unknown one. -/
def ofAddress : Handler := fun machine args => do
  let address := (← machine.intArgument args 0).toUInt64
  let size ← machine.intArgument args 1
  if size < 0 then createBorrowed (.unsized address) []
  else createForeign address size.toInt.toNat

end ObjectModel.Behavior.Buffers
