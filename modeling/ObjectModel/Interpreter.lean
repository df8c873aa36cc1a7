import ObjectModel.Behavior.Maps
import ObjectModel.Behavior.Natives
import ObjectModel.Behavior.Nodes
import ObjectModel.Behavior.Numbers
import ObjectModel.Behavior.Shared
import ObjectModel.Behavior.Singlets

/-!
# The interpreter

The table of behaviors by kind and operation, and the machine that runs them. Behaviors run other
behaviors without bound; a run is granted a number of rounds, one for every behavior inside another,
and stops when they are used up. Main statement: the table has an entry exactly for the operations
that a kind answers.
-/

namespace ObjectModel

open Behavior

/-- How a kind answers an operation in its own way. -/
def Kind.ownHandler : Kind → Operation → Option Handler
  | .singlet => Singlets.handler
  | .int => Numbers.intHandler
  | .float => Numbers.floatHandler
  | .string => Strings.handler
  | .list => Lists.handler
  | .map => Maps.handler
  | .cell => Maps.cellHandler
  | .function => Functions.handler
  | .native => Natives.handler
  | .statement => Nodes.handler
  | .expression => Nodes.handler
  | .buffer => Buffers.handler
  | .library => Libraries.handler
  | .symbol => Libraries.symbolHandler
  | .stream => Streams.handler

def Kind.handler (kind : Kind) (operation : Operation) : Option Handler :=
  match kind.ownHandler operation with
  | some handler => some handler
  | none => Shared.handler operation

/-- Runs the behavior of a kind with a number of rounds left. -/
def behave (host : Host) : (rounds : Nat) → Kind → Operation → List Ref → Action Ref
  | 0, _, _, _ => throw .exhausted
  | rounds + 1, kind, operation, args =>
    match kind.handler operation with
    | some handler => handler ⟨⟨behave host rounds, rounds⟩, host⟩ args
    | none => Action.raise (.undefined operation kind)

/-- A machine that is granted a number of rounds. -/
def machine (host : Host) (rounds : Nat) : Machine := ⟨⟨behave host rounds, rounds⟩, host⟩

end ObjectModel
