import ObjectModel.Machine

/-!
# Singlets

A singlet is nothing but its name.
-/

namespace ObjectModel.Behavior.Singlets

open ObjectModel.Action

def nameOf (object : Ref) : Action String := do
  match ← payload object with
  | .singlet name => return name
  | _ => return ""

def toText : Handler := fun _ args => do
  createString (← nameOf (← argument args 0))

def toBuffer : Handler := fun _ args => do
  createBuffer (Bytes.ofText (← nameOf (← argument args 0)))

def handler : Operation → Option Handler
  | .toText => some toText
  | .toBuffer => some toBuffer
  | _ => none

end ObjectModel.Behavior.Singlets
