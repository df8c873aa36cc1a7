/-!
# Byte strings and their text

Texts are measured, cut and searched in bytes. A text always has bytes; bytes have a text in
which every maximal ill-formed subsequence is one replacement character. Memory and files store bytes
in arrays, of which parts are read. Main statement: what a part of stored bytes holds.
-/

namespace ObjectModel

abbrev Bytes := List UInt8

namespace Utf8

/-- A multi-byte character under way: how many bytes are still missing, between which bounds the
next one must lie, and the code point bits read so far. -/
structure Sequence where
  missing : Nat
  low : UInt8
  high : UInt8
  code : Nat

/-- The character that stands for an ill-formed subsequence. -/
def replacement : Char := '\uFFFD'

/-- What a byte at the start of a character announces: a character of its own, a longer
sequence, or nothing well formed. -/
def announce (byte : UInt8) : Option (Char ⊕ Sequence) :=
  let bits := byte.toNat
  if bits < 0x80 then some (.inl (Char.ofNat bits))
  else if bits < 0xC2 then none
  else if bits < 0xE0 then some (.inr ⟨1, 0x80, 0xBF, bits - 0xC0⟩)
  else if bits = 0xE0 then some (.inr ⟨2, 0xA0, 0xBF, 0⟩)
  else if bits = 0xED then some (.inr ⟨2, 0x80, 0x9F, bits - 0xE0⟩)
  else if bits < 0xF0 then some (.inr ⟨2, 0x80, 0xBF, bits - 0xE0⟩)
  else if bits = 0xF0 then some (.inr ⟨3, 0x90, 0xBF, 0⟩)
  else if bits < 0xF4 then some (.inr ⟨3, 0x80, 0xBF, bits - 0xF0⟩)
  else if bits = 0xF4 then some (.inr ⟨3, 0x80, 0x8F, bits - 0xF0⟩)
  else none

def Sequence.accepts (sequence : Sequence) (byte : UInt8) : Bool :=
  sequence.low ≤ byte && byte ≤ sequence.high

/-- The sequence after one more of its bytes; the narrowed bounds hold for the second byte only. -/
def Sequence.extend (sequence : Sequence) (byte : UInt8) : Sequence :=
  ⟨sequence.missing - 1, 0x80, 0xBF, sequence.code * 64 + (byte.toNat - 0x80)⟩

/-- Characters of a byte string read from the left, with the sequence under way. A sequence cut
short by a byte that does not fit is replaced, and that byte is read afresh. -/
def characters : Option Sequence → Bytes → List Char
  | none, [] => []
  | some _, [] => [replacement]
  | none, byte :: rest =>
    match announce byte with
    | some (.inl char) => char :: characters none rest
    | some (.inr sequence) => characters (some sequence) rest
    | none => replacement :: characters none rest
  | some sequence, byte :: rest =>
    if sequence.accepts byte then
      let sequence := sequence.extend byte
      if sequence.missing = 0 then Char.ofNat sequence.code :: characters none rest
      else characters (some sequence) rest
    else
      replacement :: match announce byte with
        | some (.inl char) => char :: characters none rest
        | some (.inr sequence) => characters (some sequence) rest
        | none => replacement :: characters none rest

end Utf8

namespace Bytes

def ofText (text : String) : Bytes := text.toByteArray.data.toList

theorem length_ofText (text : String) : (ofText text).length = text.utf8ByteSize := by
  simp [ofText]

/-- At most `length` bytes of stored bytes from an offset on. -/
def part (stored : ByteArray) (offset length : Nat) : Bytes :=
  (stored.extract offset (offset + length)).data.toList

theorem part_eq (stored : ByteArray) (offset length : Nat) :
    part stored offset length = (stored.data.toList.drop offset).take length := by
  simp [part, ByteArray.data_extract, List.extract_eq_take_drop]

/-- The text of a byte string: itself when it is well formed, else with every maximal ill-formed
subsequence replaced. -/
def toText (bytes : Bytes) : String :=
  match String.fromUTF8? bytes.toByteArray with
  | some text => text
  | none => String.ofList (Utf8.characters none bytes)

def untilZero (bytes : Bytes) : Bytes := bytes.takeWhile (· ≠ 0)

/-- Three-way order of byte strings: the first difference decides, and a proper initial part comes
first. -/
def order : Bytes → Bytes → Ordering
  | [], [] => .eq
  | [], _ :: _ => .lt
  | _ :: _, [] => .gt
  | a :: as, b :: bs => if a < b then .lt else if b < a then .gt else order as bs

end Bytes

end ObjectModel
