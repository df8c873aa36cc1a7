import ObjectModel.State.Basic

/-!
# Actions

An action runs in a state and gives a value and the next state, or stops. It stops because an error
was raised, which is then pending in the state, or because the run cannot go on. An action that has
stopped keeps the state it stopped in.
-/

namespace ObjectModel

/-- Why an action stopped. -/
inductive Stop where
  /-- An error was raised. -/
  | raised
  /-- The rounds granted to the run are used up, or it asks for more memory than there can be. -/
  | exhausted
  deriving DecidableEq, Repr

/-- A computation on the state of a program. -/
abbrev Action := EStateM Stop State

namespace Action

def payload (object : Ref) : Action Payload := return (← get).payload object

def kind (object : Ref) : Action Kind := return (← get).kind object

def nothing : Action Ref := return (← get).nothing

def isNothing (object : Ref) : Action Bool := return object = (← get).nothing

def orNothing (object : Option Ref) : Action Ref :=
  match object with
  | some object => return object
  | none => nothing

def create (payload : Payload) : Action Ref :=
  modifyGet fun state => (state.heap.next, { state with heap := state.heap.push payload })

def store (object : Ref) (payload : Payload) : Action Unit :=
  modify fun state => { state with heap := state.heap.set object payload }

def createAll (payloads : List Payload) : Action (List Ref) := payloads.mapM create

def createInt (value : Int64) : Action Ref := create (.int value)

def createString (value : String) : Action Ref := create (.string value)

def createList (items : List Ref) : Action Ref := create (.list items.toArray)

def createMap : Action Ref := create (.map [])

def createNative (function : Native) : Action Ref := create (.native function)

/-- Adds to what happened. -/
def record (event : Event) : Action Unit :=
  modify fun state => { state with trail := event :: state.trail }

def exchange (a b : Ref) : Action Unit := do
  record (.exchanged a b)
  modify fun state => { state with heap := state.heap.swap a b }

/-- Raises an object. The traceback lists the calls under way, innermost first. -/
def raiseObject (error : Ref) : Action α := do
  let frames := (← get).frames
  let traceback ← createList frames
  record (.raised error frames)
  modify fun state => { state with pending := some ⟨error, traceback⟩ }
  throw .raised

def raise (fault : Fault) : Action α := do
  raiseObject (← createString fault.message)

/-- Takes the pending error out of its slot. -/
def takePending : Action (Option Pending) :=
  modifyGet fun state => (state.pending, { state with pending := none })

/-- Runs an action that may raise; nothing is its result when it did. -/
def attempt (action : Action α) : Action (Option α) := fun state =>
  match action state with
  | .ok value state => .ok (some value) state
  | .error .raised state => .ok none state
  | .error .exhausted state => .error .exhausted state

/-- The state that the run of an action ends in, whatever its outcome. -/
def final (action : Action α) (state : State) : State :=
  match action state with
  | .ok _ state => state
  | .error _ state => state

/-- Runs `after` when `action` gave a value or raised. An error that `after` raises takes the place
of the outcome. -/
def followedBy (action : Action α) (after : Action Unit) : Action α := do
  let outcome ← attempt action
  after
  match outcome with
  | some value => return value
  | none => throw .raised

/-- Runs an action while objects are held on its behalf. -/
def holding (objects : List Ref) (action : Action α) : Action α := do
  let before := (← get).held
  modify fun state => { state with held := objects :: before }
  followedBy action (modify fun state => { state with held := before })

/-! ## Frames and scopes -/

/-- Raises an error when calls and delegations are nested as deep as they may be. -/
def checkDepth : Action Unit := do
  let state ← get
  if state.limits.depth ≤ state.depth then raise (.depth state.limits.depth)

def pushFrame (callable : Ref) : Action Unit := do
  checkDepth
  modify fun state => { state with frames := callable :: state.frames }

/-- Takes the innermost frame away, which must be that of the callable. -/
def popFrame (callable : Ref) : Action Unit := do
  match (← get).frames with
  | [] => raise .frameImbalance
  | top :: rest =>
    modify fun state => { state with frames := rest }
    unless top = callable do raise .frameImbalance

def inFrame (callable : Ref) (action : Action α) : Action α := do
  pushFrame callable
  followedBy action (popFrame callable)

/-- Runs an action as one delegation deeper. -/
def delegated (action : Action α) : Action α := do
  checkDepth
  modify fun state => { state with delegations := state.delegations + 1 }
  followedBy action (modify fun state => { state with delegations := state.delegations - 1 })

def pushScope (scope : Ref) : Action Unit :=
  modify fun state => { state with scopes := scope :: state.scopes }

/-- Takes the innermost scope away, but never the last. -/
def popScope : Action (Option Ref) :=
  modifyGet fun state =>
    match state.scopes with
    | scope :: outer :: rest => (some scope, { state with scopes := outer :: rest })
    | _ => (none, state)

def inScope (scope : Ref) (action : Action α) : Action α := do
  pushScope scope
  followedBy action (discard popScope)

/-! ## Names, arguments and memory -/

def nameBytes? (object : Ref) : Action (Option Bytes) := return (← get).nameBytes? object

/-- The argument at a place; a missing one is no value. -/
def argument (args : List Ref) (index : Nat) : Action Ref := orNothing args[index]?

/-- The argument at a place, unless it is missing or no value. -/
def optional (args : List Ref) (index : Nat) : Action (Option Ref) := do
  match args[index]? with
  | some object => return if ← isNothing object then none else some object
  | none => return none

def createBuffer (bytes : Bytes) : Action Ref := do
  if ¬ (← get).memory.Fits bytes.length then raise (.allocation bytes.length)
  let address ← modifyGet fun state =>
    let (address, memory) := state.memory.allocate bytes
    (address, { state with memory })
  create (.buffer { view := .sized address bytes.length, ownership := .owned })

def print (text : String) : Action Unit :=
  modify fun state => { state with sink := state.sink.print text }

end Action

end ObjectModel
