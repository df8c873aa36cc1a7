import ObjectModel.Rendering
import ObjectModel.State.Scopes
import ObjectModel.Text.Search

/-!
# Builtin functions

Conversions, errors, output and a few utilities that every program starts with.
-/

namespace ObjectModel.Prelude

open ObjectModel.Action

/-- The operation on the arguments as they are. -/
def operation (operation : Operation) : Handler := fun machine args =>
  machine.dispatch operation args

def kindOf : Handler := fun _ args => do
  createBuffer (Bytes.ofText (← kind (← argument args 0)).name)

/-- Calls a callable. Gives 1 and the result, or 0, the error and its traceback; the error is then
no longer pending. -/
def protect : Handler := fun machine args => do
  let callee ← argument args 0
  match ← holding [callee] (attempt (machine.call callee (args.drop 1))) with
  | some result => createList [← createInt 1, result]
  | none =>
    match ← takePending with
    | some pending => createList [← createInt 0, pending.error, pending.traceback]
    | none => createList [← createInt 0, ← nothing, ← createList []]

/-- Calls a callable with further arguments and then the items of a list. -/
def apply : Handler := fun machine args => do
  let callee ← argument args 0
  match (← payload (← argument args 1)).items? with
  | none => raise .applyNonList
  | some items =>
    let forwarded := args.drop 2 ++ items.toList
    holding (callee :: forwarded) (machine.call callee forwarded)

def error : Handler := fun _ args => do
  raiseObject (← argument args 0)

def printLine (text : Dispatcher → Ref → Action String) : Handler := fun machine args => do
  let line ← Rendering.line (text machine.toDispatcher) args
  print (line ++ "\n")
  nothing

def mapArgument (fault : Fault) (args : List Ref) : Action Ref := do
  let map ← argument args 0
  if (← kind map) ≠ .map then raise fault
  return map

/-- The stored value of a key, past any hook. -/
def rawGet : Handler := fun machine args => do
  let map ← mapArgument .rawGetNonMap args
  orNothing (← Map.get? machine.toDispatcher map (← argument args 1))

/-- Stores a value under a key, past any hook. -/
def rawSet : Handler := fun machine args => do
  let map ← mapArgument .rawSetNonMap args
  Map.set machine.toDispatcher map (← argument args 1) (← argument args 2)
  nothing

def range : Handler := fun machine args => do
  let bound ← machine.intArgument args 0
  createList (← (List.range bound.toInt.toNat).mapM fun n => createInt (Int64.ofNat n))

/-- The byte of a text at an index that may count from the end. -/
def ord : Handler := fun machine args => do
  let text ← machine.textArgument args 0
  let index ← machine.intArgumentOr args 1 0
  match Bytes.ofTextWrappedAt? text index.toInt with
  | some byte => createInt (Int64.ofNat byte.toNat)
  | none => raise .ordOutOfBounds

/-- The lowest byte of an int, as a buffer. -/
def chr : Handler := fun machine args => do
  createBuffer [(← machine.intArgument args 0).toUInt64.toUInt8]

end ObjectModel.Prelude
