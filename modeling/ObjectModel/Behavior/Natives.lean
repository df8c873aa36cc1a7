import ObjectModel.Builtin.Body

/-!
# Native functions

A native function runs inside a frame of its own. It is a builtin, the behavior of some kind for
some operation, or a function of the embedding program.
-/

namespace ObjectModel.Behavior.Natives

open ObjectModel.Action

/-- Runs what a native function stands for. A name that the embedding program does not know gives no
value. -/
def run (machine : Machine) (args : List Ref) : Native → Action Ref
  | .builtin function => function.body machine args
  | .behavior kind operation => machine.behave kind operation args
  | .host name =>
    match machine.host.native name with
    | some body => body machine.toDispatcher args
    | none => nothing

def call : Handler := fun machine args => do
  let callee ← argument args 0
  match ← payload callee with
  | .native function => holding [callee] (inFrame callee (run machine (args.drop 1) function))
  | other => raise (.mismatch .native other.kind)

def toText : Handler := fun _ args => do
  match ← payload (← argument args 0) with
  | .native function => createString ("<CFunction " ++ function.name ++ ">")
  | _ => createString "<CFunction>"

def handler : Operation → Option Handler
  | .call => some call
  | .toText => some toText
  | _ => none

end ObjectModel.Behavior.Natives
