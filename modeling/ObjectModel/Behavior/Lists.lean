import ObjectModel.Behavior.Strings
import ObjectModel.Rendering

/-!
# Lists

Lists are joined, repeated, compared item by item, and looked into from either end. Their callbacks
see the items as they were when the method was called.
-/

namespace ObjectModel.Behavior.Lists

open ObjectModel.Action

def itemsOf (object : Ref) : Action (Array Ref) :=
  return (← payload object).items?.getD #[]

/-- The place of an index among `length` items; a negative one counts from the end. -/
def position? (index : Int64) (length : Nat) : Option Nat :=
  let index := if index < 0 then index.toInt + length else index.toInt
  if 0 ≤ index ∧ index < length then some index.toNat else none

/-- Bytes that one item of a list takes in an allocation. -/
def itemSize : Nat := 8

def add : Handler := fun _ args => do
  match (← payload (← argument args 1)).items? with
  | none => raise .addToList
  | some tail =>
    let head ← itemsOf (← argument args 0)
    create (.list (.emptyWithCapacity (head.size + tail.size) ++ head ++ tail))

def mul : Handler := fun machine args => do
  let items ← itemsOf (← argument args 0)
  let times ← machine.intArgument args 1
  createList (← Strings.repeated itemSize items.toList times)

/-- The order of the first pair that is not equal; items beyond the shorter list play no part. -/
def compareItems (run : Dispatcher) : List Ref → List Ref → Action Int64
  | left :: lefts, right :: rights => do
    let order ← run.compare left right
    if order ≠ 0 then return order else compareItems run lefts rights
  | _, _ => return 0

/-- The order of two lists: a shorter one comes first, and lists of one length are compared item by
item. -/
def compare : Handler := fun machine args => do
  let left ← itemsOf (← argument args 0)
  match (← payload (← argument args 1)).items? with
  | none => createInt 1
  | some right =>
    if left.size < right.size then createInt (-1)
    else if right.size < left.size then createInt 1
    else createInt (← compareItems machine.toDispatcher left.toList right.toList)

def index : Handler := fun machine args => do
  let list ← argument args 0
  let key ← argument args 1
  if (← nameBytes? key).isSome then method .list key
  else
    let index ← machine.toInt key
    let items ← itemsOf list
    orNothing ((position? index items.size).bind (items[·]?))

/-- Replaces the item at an index; outside the list nothing happens. -/
def setIndex : Handler := fun machine args => do
  let list ← argument args 0
  let index ← machine.intArgument args 1
  let value ← argument args 2
  match ← payload list with
  | .list items =>
    match position? index items.size with
    | some place => store list (.list (items.setIfInBounds place value))
    | none => pure ()
  | _ => pure ()
  nothing

def length : Handler := fun _ args => do
  createInt (Integer.ofLength (← itemsOf (← argument args 0)).size)

def represent : Handler := fun machine args => do
  let list ← argument args 0
  createString (← Rendering.listText (Rendering.text machine.toDispatcher) list)

def handler : Operation → Option Handler
  | .add => some add
  | .mul => some mul
  | .compare => some compare
  | .index => some index
  | .setIndex => some setIndex
  | .length => some length
  | .iterate => some (Iteration.stepper .iterList)
  | .toText => some represent
  | .represent => some represent
  | _ => none

/-! ## Methods -/

def copy : Handler := fun _ args => do
  create (.list (← itemsOf (← argument args 0)))

/-- Inserts an item before an index; an index outside the list means its nearer end. -/
def insert : Handler := fun machine args => do
  let list ← argument args 0
  let index ← machine.intArgument args 1
  let value ← argument args 2
  match ← payload list with
  | .list items =>
    store list (.list (items.insertIdxIfInBounds (Bytes.bound items.size index.toInt) value))
  | _ => pure ()
  nothing

def remove : Handler := fun machine args => do
  let list ← argument args 0
  let index ← machine.intArgument args 1
  match ← payload list with
  | .list items =>
    match position? index items.size with
    | some place =>
      store list (.list (items.eraseIdxIfInBounds place))
      orNothing items[place]?
    | none => nothing
  | _ => nothing

def truncate : Handler := fun machine args => do
  let items ← itemsOf (← argument args 0)
  let keep ← machine.intArgument args 1
  create (.list (items.take keep.toInt.toNat))

/-- The results of a callable for the items, after earlier results, of which the last comes first. -/
def mapItems (run : Dispatcher) (callee : Ref) : List Ref → List Ref → Action (List Ref)
  | [], earlier => return earlier.reverse
  | item :: rest, earlier => do
    let result ← holding earlier (run.call callee [item])
    mapItems run callee rest (result :: earlier)

def map : Handler := fun machine args => do
  let list ← argument args 0
  let callee ← argument args 1
  let items := (← itemsOf list).toList
  createList (← holding (list :: callee :: items) (mapItems machine.toDispatcher callee items []))

/-- The items for which a callable gives an int other than zero, after those kept before, of which
the last comes first. -/
def filterItems (run : Dispatcher) (callee : Ref) : List Ref → List Ref → Action (List Ref)
  | [], kept => return kept.reverse
  | item :: rest, kept => do
    let verdict ← holding kept (holding (item :: rest) (run.call callee [item]))
    if (← run.toInt verdict) ≠ 0 then filterItems run callee rest (item :: kept)
    else filterItems run callee rest kept

def filter : Handler := fun machine args => do
  let list ← argument args 0
  let callee ← argument args 1
  let items := (← itemsOf list).toList
  createList (← holding [list, callee] (filterItems machine.toDispatcher callee items []))

def reduceItems (run : Dispatcher) (callee : Ref) : List Ref → Ref → Action Ref
  | [], result => return result
  | item :: rest, result => do
    let result ← holding (result :: item :: rest) (run.call callee [result, item])
    reduceItems run callee rest result

def reduce : Handler := fun machine args => do
  let list ← argument args 0
  let callee ← argument args 1
  let start ← argument args 2
  let items := (← itemsOf list).toList
  holding [list, callee] (reduceItems machine.toDispatcher callee items start)

end ObjectModel.Behavior.Lists
