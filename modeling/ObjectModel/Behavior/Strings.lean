import ObjectModel.Iteration
import ObjectModel.State.Scopes
import ObjectModel.Text.Numeral
import ObjectModel.Text.Search

/-!
# Strings

Lengths and offsets count bytes, and a byte range that cuts through a character is read with
replacement characters. Every other object is joined or compared by its text, and what is no name is
never equal to a string.
-/

namespace ObjectModel.Behavior.Strings

open ObjectModel.Action

/-- The text of a string argument; other objects count as the empty text. -/
def ofArgument (args : List Ref) (index : Nat) : Action String :=
  return (← payload (← argument args index)).stringOrEmpty

def bytesOfArgument (args : List Ref) (index : Nat) : Action Bytes :=
  return Bytes.ofText (← ofArgument args index)

/-- How many bytes one allocation can hold. -/
def largestAllocation : Nat := Memory.lane

/-- A sequence repeated. No copies are made of nothing; a sequence that no allocation of `unit`
bytes an element can hold raises an error. -/
def repeated (unit : Nat) (elements : List α) (times : Int64) : Action (List α) := do
  let times := times.toInt.toNat
  if elements.isEmpty ∨ times = 0 then return []
  let total := elements.length * times
  if UInt64.size ≤ total then raise (.allocation (UInt64.size - 1))
  if largestAllocation < total * unit then raise (.allocation (min (total * unit) (UInt64.size - 1)))
  return (List.replicate times elements).flatten

def add : Handler := fun machine args => do
  let left ← ofArgument args 0
  let right ← machine.textArgument args 1
  createString (left ++ right)

def mul : Handler := fun machine args => do
  let bytes ← bytesOfArgument args 0
  let times ← machine.intArgument args 1
  createString (Bytes.toText (← repeated 1 bytes times))

/-- The order of two strings by their bytes. A buffer takes part with its text. -/
def compare : Handler := fun machine args => do
  let left ← bytesOfArgument args 0
  let right ← argument args 1
  match ← kind right with
  | .string | .buffer =>
    let right := Bytes.ofText (← machine.toText right)
    createInt (Integer.ofOrdering (Bytes.order left right))
  | _ => createInt 1

def length : Handler := fun _ args => do
  createInt (Integer.ofLength (← ofArgument args 0).utf8ByteSize)

/-- A method for a string key, and else the byte at an offset as a text, which is empty outside. -/
def index : Handler := fun machine args => do
  let key ← argument args 1
  if (← kind key) = .string then method .string key
  else
    let text ← ofArgument args 0
    let offset ← machine.toInt key
    createString (Bytes.toText (Bytes.ofTextAt? text offset.toInt).toList)

def toInt : Handler := fun _ args => do
  createInt (Numeral.leadingInt (← bytesOfArgument args 0))

def toFloat : Handler := fun _ args => do
  create (.float (Numeral.leadingFloat (← bytesOfArgument args 0)))

def toText : Handler := fun _ args => argument args 0

def toBuffer : Handler := fun _ args => do
  createBuffer (← bytesOfArgument args 0)

def represent : Handler := fun _ args => do
  let text ← ofArgument args 0
  createString ("\"" ++ text ++ "\"")

def handler : Operation → Option Handler
  | .add => some add
  | .mul => some mul
  | .compare => some compare
  | .length => some length
  | .index => some index
  | .iterate => some (Iteration.stepper .iterString)
  | .toInt => some toInt
  | .toFloat => some toFloat
  | .toText => some toText
  | .toBuffer => some toBuffer
  | .represent => some represent
  | _ => none

/-! ## Methods -/

/-- A list of texts, or no value when there is none. -/
def listOfTexts (parts : List Bytes) : Action Ref := do
  if parts.isEmpty then nothing
  else createList (← createAll (parts.map fun part => .string (Bytes.toText part)))

def sub : Handler := fun machine args => do
  let bytes := Bytes.ofText (← machine.textArgument args 0)
  let low ← machine.intArgumentOr args 1 0
  let high ← machine.intArgumentOr args 2 (Integer.ofLength bytes.length)
  createString (Bytes.toText (Bytes.slice bytes low.toInt high.toInt))

def split : Handler := fun machine args => do
  let text ← machine.textArgument args 0
  let separators ← machine.textArgument args 1
  listOfTexts (Bytes.tokens (Bytes.ofText separators) (Bytes.ofText text))

def offsetOrMinusOne (offset : Option Nat) : Int64 :=
  (offset.map Integer.ofLength).getD (-1)

def find : Handler := fun machine args => do
  let text ← machine.textArgument args 0
  let needle ← machine.textArgument args 1
  createInt (offsetOrMinusOne (Bytes.find? (Bytes.ofText needle) (Bytes.ofText text)))

end ObjectModel.Behavior.Strings
