/-!
# Modes of opening files

A mode code is a sum of bits. Only the classical combinations are modes, each with or without the
bit for binary files, which makes no difference.
-/

namespace ObjectModel

/-- How a file is opened. -/
inductive FileMode where
  /-- Read a file that exists. -/
  | read
  /-- Write to a file, which starts out empty. -/
  | write
  /-- Read and write a file that exists. -/
  | update
  /-- Write at the end of a file. -/
  | append
  /-- Read a file and write at its end. -/
  | readAppend
  /-- Read and write a file, which starts out empty. -/
  | renew
  deriving DecidableEq, Repr

namespace FileMode

def readBit : Int64 := 1
def writeBit : Int64 := 2
def appendBit : Int64 := 4
def truncateBit : Int64 := 8
def binaryBit : Int64 := 16

/-- The mode of a code without the binary bit. -/
def ofBits? (bits : Int64) : Option FileMode :=
  if bits = readBit then some .read
  else if bits = writeBit ∨ bits = writeBit + truncateBit then some .write
  else if bits = readBit + writeBit then some .update
  else if bits = writeBit + appendBit then some .append
  else if bits = readBit + writeBit + appendBit then some .readAppend
  else if bits = readBit + writeBit + truncateBit then some .renew
  else none

def ofCode? (code : Int64) : Option FileMode :=
  if code < 0 ∨ 31 < code then none
  else ofBits? (if binaryBit ≤ code then code - binaryBit else code)

def reads : FileMode → Bool
  | .read | .update | .readAppend | .renew => true
  | .write | .append => false

def writes (mode : FileMode) : Bool := mode ≠ .read

/-- Whether every write goes to the end of the file. -/
def appends : FileMode → Bool
  | .append | .readAppend => true
  | _ => false

def truncates : FileMode → Bool
  | .write | .renew => true
  | _ => false

/-- Whether a file that is missing is made. -/
def creates : FileMode → Bool
  | .read | .update => false
  | _ => true

end FileMode

end ObjectModel
