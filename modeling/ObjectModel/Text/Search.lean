import ObjectModel.Text.Bytes

/-!
# Searching and cutting byte strings

The first occurrence of a byte string in another, the parts between separators, and ranges whose
bounds may count from the end. Main statements: looking into a text in place gives its bytes.
-/

namespace ObjectModel.Bytes

/-- The least offset at which a needle occurs, where the bytes given start at `offset`. -/
def findFrom? (needle : Bytes) (offset : Nat) : Bytes → Option Nat
  | [] => if needle.isEmpty then some offset else none
  | byte :: rest =>
    if needle.isPrefixOf (byte :: rest) then some offset else findFrom? needle (offset + 1) rest

def find? (needle bytes : Bytes) : Option Nat := findFrom? needle 0 bytes

/-- A byte before parts: a separator starts a part of its own, any other byte belongs to the first
part. -/
def beforePieces (separators : Bytes) (byte : UInt8) (later : List Bytes) : List Bytes :=
  if separators.contains byte then [] :: later
  else match later with
    | piece :: rest => (byte :: piece) :: rest
    | [] => [[byte]]

def pieces (separators bytes : Bytes) : List Bytes :=
  bytes.foldr (beforePieces separators) [[]]

/-- The maximal non-empty runs of bytes that hold no separator. -/
def tokens (separators bytes : Bytes) : List Bytes :=
  (pieces separators bytes).filter (!·.isEmpty)

/-- The place in a sequence of `length` elements that a bound stands for: a negative one counts
from the end, and what lies outside is moved to the nearest end. -/
def bound (length : Nat) (index : Int) : Nat :=
  min (if index < 0 then index + length else index).toNat length

/-- The bytes from `low` up to but not including `high`, both read by `bound`. -/
def slice (bytes : Bytes) (low high : Int) : Bytes :=
  (bytes.take (bound bytes.length high)).drop (bound bytes.length low)

/-- The byte at an index that may count from the end. -/
def wrappedAt? (bytes : Bytes) (index : Int) : Option UInt8 :=
  let index := if index < 0 then index + bytes.length else index
  if index < 0 then none else bytes[index.toNat]?

def at? (bytes : Bytes) (index : Int) : Option UInt8 :=
  if index < 0 then none else bytes[index.toNat]?

def ofTextGet? (text : String) (offset : Nat) : Option UInt8 :=
  if inside : (⟨offset⟩ : String.Pos.Raw) < text.rawEndPos then
    some (text.getUTF8Byte ⟨offset⟩ inside)
  else none

theorem ofTextGet?_eq (text : String) (offset : Nat) :
    ofTextGet? text offset = (ofText text)[offset]? := by
  by_cases inside : (⟨offset⟩ : String.Pos.Raw) < text.rawEndPos
  · have bound : offset < (ofText text).length := by
      rw [length_ofText]; exact inside
    rw [ofTextGet?, dif_pos inside, List.getElem?_eq_getElem bound]
    rfl
  · have bound : (ofText text).length ≤ offset := by
      rw [length_ofText]; exact Nat.le_of_not_lt inside
    rw [ofTextGet?, dif_neg inside, List.getElem?_eq_none bound]

def ofTextWrappedAt? (text : String) (index : Int) : Option UInt8 :=
  let index := if index < 0 then index + text.utf8ByteSize else index
  if index < 0 then none else ofTextGet? text index.toNat

def ofTextAt? (text : String) (index : Int) : Option UInt8 :=
  if index < 0 then none else ofTextGet? text index.toNat

theorem ofTextWrappedAt?_eq (text : String) (index : Int) :
    ofTextWrappedAt? text index = wrappedAt? (ofText text) index := by
  simp only [ofTextWrappedAt?, wrappedAt?, ofTextGet?_eq, length_ofText]

theorem ofTextAt?_eq (text : String) (index : Int) :
    ofTextAt? text index = at? (ofText text) index := by
  simp only [ofTextAt?, at?, ofTextGet?_eq]

end ObjectModel.Bytes
