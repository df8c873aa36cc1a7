import ObjectModel.Machine

/-!
# Behaviors that all kinds share

What a kind does not answer in its own way: exchanging payloads, identity as the order, and
conversions by way of the text.
-/

namespace ObjectModel.Behavior.Shared

open ObjectModel.Action

/-- Exchanges the payloads of two objects. Both stay where they are, so that everyone who knows one
of them finds the payload of the other. -/
def swap : Handler := fun _ args => do
  let first ← argument args 0
  let second ← argument args 1
  exchange first second
  nothing

def compare : Handler := fun _ args => do
  let first ← argument args 0
  let second ← argument args 1
  createInt (if first = second then 0 else 1)

def toBuffer : Handler := fun machine args => do
  createBuffer (Bytes.ofText (← machine.textArgument args 0))

/-- The text itself. -/
def represent : Handler := fun machine args => do
  let object ← argument args 0
  holding [object] (machine.unary .toText object)

/-- What all kinds answer unless they do so in their own way. Every kind makes its text itself. -/
def handler : Operation → Option Handler
  | .swap => some swap
  | .compare => some compare
  | .toBuffer => some toBuffer
  | .represent => some represent
  | .init => some fun _ _ => nothing
  | .free => some fun _ _ => nothing
  | _ => none

end ObjectModel.Behavior.Shared
