import ObjectModel.Binary64
import ObjectModel.Text.Bytes

/-!
# Formats of scalars in memory

A format lays a scalar out in bytes, least significant byte first. Integers are reduced to the
format's width when they are written and extended to 64 bits when they are read.
-/

namespace ObjectModel

/-- A primitive layout that memory can be read or written as. -/
inductive Format where
  | uint8
  | uint16
  | uint32
  | uint64
  | int8
  | int16
  | int32
  | int64
  | char
  | byte
  | int
  | uint
  | long
  | ulong
  | float
  | double
  /-- A text that ends at a zero byte. -/
  | text
  /-- An address. -/
  | pointer
  deriving DecidableEq, Repr

abbrev Address := UInt64

/-- A value as memory holds it. -/
inductive Scalar where
  | int (value : Int64)
  | float (value : Binary64)
  | char (value : UInt8)
  | bytes (value : Bytes)
  | address (value : Address)

namespace Format

def all : List Format :=
  [.uint8, .uint16, .uint32, .uint64, .int8, .int16, .int32, .int64, .char, .byte, .int, .uint,
   .long, .ulong, .float, .double, .text, .pointer]

def code : Format → Int64
  | .uint8 => 1
  | .uint16 => 2
  | .uint32 => 3
  | .uint64 => 4
  | .int8 => 5
  | .int16 => 6
  | .int32 => 7
  | .int64 => 8
  | .char => 9
  | .byte => 10
  | .int => 11
  | .uint => 12
  | .long => 13
  | .ulong => 14
  | .float => 15
  | .double => 16
  | .text => 17
  | .pointer => 18

def ofCode? (code : Int64) : Option Format := all.find? (·.code = code)

def name : Format → String
  | .uint8 => "uint8"
  | .uint16 => "uint16"
  | .uint32 => "uint32"
  | .uint64 => "uint64"
  | .int8 => "int8"
  | .int16 => "int16"
  | .int32 => "int32"
  | .int64 => "int64"
  | .char => "char"
  | .byte => "byte"
  | .int => "int"
  | .uint => "uint"
  | .long => "long"
  | .ulong => "ulong"
  | .float => "float"
  | .double => "double"
  | .text => "cstr"
  | .pointer => "ptr"

inductive Layout where
  | unsigned
  | signed
  | single
  | double
  | char
  | address
  deriving DecidableEq, Repr

/-- The width in bytes and the layout of a format; a text has neither. -/
def fixed? : Format → Option (Nat × Layout)
  | .uint8 | .byte => some (1, .unsigned)
  | .uint16 => some (2, .unsigned)
  | .uint32 | .uint => some (4, .unsigned)
  | .uint64 | .ulong => some (8, .unsigned)
  | .int8 => some (1, .signed)
  | .int16 => some (2, .signed)
  | .int32 | .int => some (4, .signed)
  | .int64 | .long => some (8, .signed)
  | .char => some (1, .char)
  | .float => some (4, .single)
  | .double => some (8, .double)
  | .pointer => some (8, .address)
  | .text => none

/-- The width of a format in bytes. -/
def width? (format : Format) : Option Nat := format.fixed?.map (·.1)

theorem mem_all (format : Format) : format ∈ all := by
  cases format <;> simp [all]

end Format

def Bytes.toNat : Bytes → Nat
  | [] => 0
  | byte :: rest => byte.toNat + 256 * Bytes.toNat rest

def Bytes.ofNat : (width : Nat) → Nat → Bytes
  | 0, _ => []
  | width + 1, value => UInt8.ofNat value :: Bytes.ofNat width (value / 256)

namespace Format.Layout

/-- The scalar that `width` bytes hold. -/
def decode (layout : Layout) (width : Nat) (bytes : Bytes) : Scalar :=
  let value := bytes.toNat
  match layout with
  | .unsigned => .int (Int64.ofNat value)
  | .signed => .int (Int64.ofInt (Int.bmod value (Nat.pow 2 (8 * width))))
  | .single => .float (.ofSingle (UInt32.ofNat value))
  | .double => .float ⟨UInt64.ofNat value⟩
  | .char => .char (UInt8.ofNat value)
  | .address => .address (UInt64.ofNat value)

/-- The `width` bytes that hold a scalar, if it is of the layout's sort. -/
def encode? (layout : Layout) (width : Nat) (scalar : Scalar) : Option Bytes :=
  match layout, scalar with
  | .unsigned, .int value | .signed, .int value => some (Bytes.ofNat width value.toUInt64.toNat)
  | .single, .float value => some (Bytes.ofNat width value.toSingle.toNat)
  | .double, .float value => some (Bytes.ofNat width value.bits.toNat)
  | .char, .char value => some (Bytes.ofNat width value.toNat)
  | .address, .address value => some (Bytes.ofNat width value.toNat)
  | _, _ => none

end Format.Layout

end ObjectModel
