import ObjectModel.Machine

/-!
# Native libraries and their symbols

A library gives symbols by name. A symbol cannot be called or looked into: every access gives no
value.
-/

namespace ObjectModel.Behavior.Libraries

open ObjectModel.Action

/-- Opens a library by its path, if a loader is there and finds it. -/
def openLibrary : Handler := fun machine args => do
  let path ← machine.textArgument args 0
  match machine.host.loader.bind (·.openLibrary path) with
  | some handle => create (.library handle path)
  | none => nothing

def symbol : Handler := fun machine args => do
  let library ← argument args 0
  let name ← holding [library] (machine.textArgument args 1)
  match machine.host.loader, ← payload library with
  | some loader, .library handle _ =>
    match loader.symbol handle name with
    | some address => create (.symbol address name)
    | none => nothing
  | _, _ => nothing

def handler : Operation → Option Handler
  | .index => some symbol
  | .toText => some fun _ _ => createString "<DyLib>"
  | _ => none

def symbolHandler : Operation → Option Handler
  | .call | .index | .setIndex => some fun _ _ => nothing
  | .toText => some fun _ _ => createString "<DySym>"
  | _ => none

end ObjectModel.Behavior.Libraries
