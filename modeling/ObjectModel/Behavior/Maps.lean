import ObjectModel.Capability
import ObjectModel.Iteration
import ObjectModel.Rendering

/-!
# Maps and cells

Five names in a map are hooks that override how it answers: `__index` and `__setindex` for keys that
are looked up or stored, `__call`, `__tostring` and `__repr`. A hook that is no callable but can be
looked into, or stored into, takes the operation over; such delegations nest like calls.
-/

namespace ObjectModel.Behavior.Maps

open ObjectModel.Action Map

def setAll (run : Dispatcher) (map : Ref) : List (Ref × Ref) → Action Unit
  | [] => return
  | (key, value) :: rest => do
    set run map key value
    setAll run map rest

/-- A new map of the entries of one map, and over them those of another. -/
def add : Handler := fun machine args => do
  let other ← argument args 1
  if (← kind other) ≠ .map then raise .addToMap
  let own := (← get).entries (← argument args 0)
  let merged ← create (.map (← createAll (own.map fun (key, value) => .cell key value)))
  setAll machine.toDispatcher merged ((← get).entries other)
  return merged

/-- The stored value of a key, and without one what the lookup hook gives. -/
def index : Handler := fun machine args => do
  let map ← argument args 0
  let key ← argument args 1
  match ← get? machine.toDispatcher map key with
  | some value => return value
  | none =>
    match ← hook? map "__index" with
    | none => nothing
    | some hook =>
      let kind ← kind hook
      holding [map, key, hook] do
        if kind = .function ∨ kind = .native then machine.call hook [map, key]
        else if kind.answers .index then delegated (machine.index hook key)
        else nothing

def setIndex : Handler := fun machine args => do
  let map ← argument args 0
  let key ← argument args 1
  let value ← argument args 2
  match ← hook? map "__setindex" with
  | none => set machine.toDispatcher map key value
  | some hook =>
    let kind ← kind hook
    holding [map, key, value, hook] do
      if kind = .function ∨ kind = .native then discard (machine.call hook [map, key, value])
      else if kind.answers .setIndex then delegated (machine.setIndex hook key value)
      else set machine.toDispatcher map key value
  nothing

/-- Calls the call hook, with the map before the arguments. -/
def call : Handler := fun machine args => do
  let map ← argument args 0
  match ← hook? map "__call" with
  | none => raise .mapNotCallable
  | some hook =>
    let forwarded := map :: args.drop 1
    holding (hook :: forwarded) (machine.call hook forwarded)

def length : Handler := fun _ args => do
  let map ← argument args 0
  createInt (Integer.ofLength ((← get).cells map).length)

/-- The cells in braces, unless a hook makes the text. -/
def represent : Handler := fun machine args => do
  let map ← argument args 0
  match ← callableHook? map "__repr" with
  | some hook => holding [map, hook] (machine.call hook [map])
  | none => createString (← Rendering.mapText (Rendering.text machine.toDispatcher) map)

/-- What the text hook gives if it can be called, and else the text as a program would write it. -/
def toText : Handler := fun machine args => do
  let map ← argument args 0
  let hook ← hook? map "__tostring"
  holding (map :: hook.toList) do
    match hook with
    | some hook =>
      if (← get).isCallable hook then machine.call hook [map] else represent machine args
    | none => represent machine args

def handler : Operation → Option Handler
  | .add => some add
  | .index => some index
  | .setIndex => some setIndex
  | .call => some call
  | .length => some length
  | .iterate => some (Iteration.stepper .iterMap)
  | .toText => some toText
  | .represent => some represent
  | _ => none

def representCell : Handler := fun machine args => do
  let cell ← argument args 0
  createString (← Rendering.cellText (Rendering.text machine.toDispatcher) cell)

def cellHandler : Operation → Option Handler
  | .toText => some representCell
  | .represent => some representCell
  | _ => none

end ObjectModel.Behavior.Maps
