import ObjectModel.Memory.Space

/-!
# Views of memory

A sized view checks every access against its length. An unsized view knows no length and checks
nothing but that the address is not zero.
-/

namespace ObjectModel

/-- A window on memory, of known or of unknown length. -/
inductive View where
  | sized (address : Address) (length : Nat)
  | unsized (address : Address)
  deriving DecidableEq, Repr

namespace View

def address : View → Address
  | .sized address _ => address
  | .unsized address => address

def size : View → Int
  | .sized _ length => length
  | .unsized _ => -1

def length? : View → Option Nat
  | .sized _ length => some length
  | .unsized _ => none

/-- The bytes from an address, taken to be `length` of them. Address zero has none. -/
def bytesAt (memory : Memory) (address : Address) (length : Nat) : Bytes :=
  if length = 0 ∨ address = 0 then [] else memory.read address length

def bytes? (memory : Memory) : View → Option Bytes
  | .sized address length => some (bytesAt memory address length)
  | .unsized _ => none

/-- The scalar at the start of the bytes; a text ends at a zero byte or with the bytes. -/
def decodeHead (format : Format) (bytes : Bytes) : Option Scalar :=
  match format.fixed? with
  | none => some (.bytes bytes.untilZero)
  | some (width, layout) =>
    if width ≤ bytes.length then some (layout.decode width (bytes.take width)) else none

/-- The bytes to write for a scalar; a text is followed by a zero byte. -/
def encoding (format : Format) (scalar : Scalar) : Option Bytes :=
  match format.fixed?, scalar with
  | none, .bytes bytes => some (bytes ++ [0])
  | none, _ => none
  | some (width, layout), scalar => layout.encode? width scalar

/-- How many bytes must be free before a scalar is written. -/
def roomNeeded (format : Format) (scalar : Scalar) : Nat :=
  match format.width?, scalar with
  | some width, _ => width
  | none, .bytes bytes => bytes.length + 1
  | none, _ => 0

/-- The address `offset` bytes away; addresses wrap. -/
def displaced (address : Address) (offset : Int) : Address :=
  UInt64.ofInt (address.toNat + offset)

/-- The scalar at an address, of which no more than `room` bytes are looked at. -/
def scalarAt (memory : Memory) (format : Format) (address : Address) (room : Nat) :
    Option Scalar :=
  decodeHead format (memory.read address ((format.width?.map (min · room)).getD room))

/-- The scalar at an offset. A sized view gives none outside its length. -/
def get? (view : View) (memory : Memory) (format : Format) (offset : Int) : Option Scalar :=
  match view with
  | .sized address length =>
    let reach := min length (memory.room address)
    if 0 ≤ offset ∧ offset < length ∧ offset.toNat ≤ reach then
      scalarAt memory format (displaced address offset) (reach - offset.toNat)
    else none
  | .unsized address =>
    let start := displaced address offset
    if start = 0 then none else scalarAt memory format start (memory.room start)

/-- Memory after a scalar was written at an offset, or nothing when it cannot be written there. -/
def set? (view : View) (memory : Memory) (format : Format) (offset : Int) (scalar : Scalar) :
    Option Memory :=
  match view with
  | .sized address length =>
    if 0 ≤ offset ∧ offset < length ∧ address ≠ 0 ∧
        roomNeeded format scalar ≤ length - offset.toNat then
      (encoding format scalar).map (memory.write (displaced address offset))
    else none
  | .unsized address =>
    let start := displaced address offset
    if start = 0 then none else (encoding format scalar).map (memory.write start)

/-- The view from an offset on. A sized view may be cut down to nothing, but not beyond its end. -/
def from? (view : View) (offset : Int) : Option View :=
  match view with
  | .sized address length =>
    if 0 ≤ offset ∧ offset ≤ length then
      some (.sized (displaced address offset) (length - offset.toNat))
    else none
  | .unsized address => some (.unsized (displaced address offset))

end View

end ObjectModel
