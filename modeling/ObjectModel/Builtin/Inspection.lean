import ObjectModel.Capability
import ObjectModel.Map.Cells
import ObjectModel.State.References

/-!
# Looking into the running program

Counts of references, scopes, frames and the behaviors of kinds. The counts leave out the two
references that the call itself holds: the caller's and the copy made for the call.
-/

namespace ObjectModel.Inspection

open ObjectModel.Action

/-- References that a call holds to each of its arguments. -/
def callReferences : Nat := 2

/-- How many references hold an object outside this call. -/
def getRef : Handler := fun _ args => do
  match args with
  | [] => nothing
  | object :: _ =>
    createInt (Int64.ofInt ((← get).refCount object - (callReferences : Int)))

/-- Moves the count of references toward a number. References can be added as pins, and only pins can
be taken away. The run goes no further where there is no place for so many pins. -/
def setRef : Handler := fun machine args => do
  match args with
  | [] => nothing
  | object :: _ =>
    let wanted : Int := min ((← machine.intArgument args 1).toInt + callReferences) Int64.maxValue.toInt
    let state ← get
    let current : Int := state.refCount object
    if current < wanted then
      let more := (wanted - current).toNat
      if State.pinCapacity < state.pins.count object + more then throw .exhausted
      modify (·.pin object more)
    else modify (·.unpin object (current - wanted).toNat)
    nothing

def closureOf : Handler := fun _ args => do
  orNothing ((← payload (← argument args 0)).function?.map (·.closure))

def globals : Handler := fun _ _ => return (← get).globals

def locals : Handler := fun _ _ => return (← get).locals

def scopes : Handler := fun _ _ => do createList (← get).scopes

/-- The callables under way, innermost first. -/
def frames : Handler := fun _ _ => do createList (← get).frames

/-- The behaviors of an argument's kind, one function for every operation, and the kind's name and
flags. -/
def operations : Handler := fun _ args => do
  let kind ← kind (← argument args 0)
  let behaviors ← Operation.all.mapM fun operation => do
    let function ← createNative (.behavior kind operation)
    return (operation.name, function)
  let table ← Map.ofNamed behaviors
  Map.setNamed table "name" (← createBuffer (Bytes.ofText kind.name))
  Map.setNamed table "flags" (← createInt (Int64.ofNat kind.flags))
  return table

end ObjectModel.Inspection
