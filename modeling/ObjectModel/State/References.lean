import ObjectModel.State.Basic

/-!
# Counts of references

An object is held by what holds it from outside the heap and by the payloads of objects that are
themselves held. Objects that nothing holds are released, and with them what only they held; objects
that hold each other are never released. The counts are not kept but computed from the state.
-/

namespace ObjectModel.State

/-- What is held from outside the heap, each object as often as it is held. -/
def roots (state : State) : List Ref :=
  state.nothing :: state.globals :: state.methods ::
    (state.scopes ++ state.frames ++
      (match state.pending with
        | some pending => [pending.error, pending.traceback]
        | none => []) ++
      state.pins ++ state.held.flatten ++ state.hostHeld)

/-- Objects that nothing holds: they are no roots, and whatever names them is itself released. -/
inductive Released (state : State) : Ref → Prop where
  | intro {object : Ref} (notRoot : object ∉ state.roots)
      (holders : ∀ holder, holder.index < state.heap.size →
        object ∈ (state.payload holder).references → Released state holder) :
      Released state object

def countUp (counts : Array Nat) (object : Ref) : Array Nat :=
  counts.modify object.index (· + 1)

def initialCounts (state : State) : Array Nat :=
  state.heap.payloads.foldl (fun counts payload => payload.references.foldl countUp counts)
    (state.roots.foldl countUp (Array.replicate state.heap.size 0))

/-- One reference less to an object; an object that loses its last one is noted. -/
def countDown (progress : Array Nat × List Ref) (object : Ref) : Array Nat × List Ref :=
  let (counts, freed) := progress
  (counts.modify object.index (· - 1),
    if counts.getD object.index 0 = 1 then object :: freed else freed)

/-- Takes back the references of released objects, and of those that are released thereby. Every
object is released at most once, which bounds the rounds. -/
def releaseAll (heap : Heap) : (rounds : Nat) → List Ref → Array Nat → Array Nat
  | 0, _, counts => counts
  | _ + 1, [], counts => counts
  | rounds + 1, object :: rest, counts =>
    let (counts, freed) := (heap.get object).references.foldl countDown (counts, rest)
    releaseAll heap rounds freed counts

/-- The number of references to every object that still count. -/
def counts (state : State) : Array Nat :=
  let counts := initialCounts state
  let unheld := (List.range state.heap.size).filter fun index => counts.getD index 0 = 0
  releaseAll state.heap (state.heap.size + 1) (unheld.map Ref.mk) counts

/-- How many references hold the object. -/
def refCount (state : State) (object : Ref) : Nat := state.counts.getD object.index 0

def isAlive (state : State) (object : Ref) : Bool := 0 < state.refCount object

/-- How often an object can be held on request. A vector of so many handles can still be had when it
grows to twice its length; not many more than twice as many fit into memory. -/
def pinCapacity : Nat := Nat.pow 2 59

def pin (state : State) (object : Ref) (count : Nat) : State :=
  { state with pins := List.replicate count object ++ state.pins }

def eraseTimes (object : Ref) : Nat → List Ref → List Ref
  | 0, objects => objects
  | count + 1, objects => eraseTimes object count (objects.erase object)

/-- Gives up at most `count` of the times an object is held on request. -/
def unpin (state : State) (object : Ref) (count : Nat) : State :=
  { state with pins := eraseTimes object (min count (state.pins.count object)) state.pins }

end ObjectModel.State
