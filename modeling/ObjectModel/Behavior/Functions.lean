import ObjectModel.Rendering
import ObjectModel.State.Scopes

/-!
# Functions written in the language

A call binds the arguments in a new scope above the one the function was made in and runs the body. A
function also answers as a container: its parts under fixed names, everything else in its map of
attributes.
-/

namespace ObjectModel.Behavior.Functions

open ObjectModel.Action

def expect (object : Ref) : Action Function := do
  match ← payload object with
  | .function function => return function
  | other => raise (.mismatch .function other.kind)

/-- Binds parameters to arguments in order; a missing argument is no value. Gives the arguments that
are left over. -/
def bindParams (scope : Ref) : List String → List Ref → Action (List Ref)
  | [], args => return args
  | param :: params, [] => do
    Map.setNamed scope param (← nothing)
    bindParams scope params []
  | param :: params, arg :: args => do
    Map.setNamed scope param arg
    bindParams scope params args

def bind (function : Function) (args : List Ref) : Action Ref := do
  let scope ← createMap
  let surplus ← bindParams scope function.params args
  match function.rest with
  | some rest => Map.setNamed scope rest (← createList surplus)
  | none => return scope
  return scope

def call : Handler := fun machine args => do
  let callee ← argument args 0
  let function ← expect callee
  match machine.host.evaluator with
  | none => raise .noEvaluator
  | some evaluator =>
    let scope ← bind function (args.drop 1)
    holding [callee] <| inFrame callee <| inScope function.closure <| inScope scope <|
      evaluator.execute machine.toDispatcher function.body

def textOrNothing : Option String → Action Ref
  | some text => createString text
  | none => nothing

/-- The part of a function under a fixed name. -/
def part? (function : Function) (name : Bytes) : Option (Action Ref) :=
  if name == Bytes.ofText "name" then some (textOrNothing function.name)
  else if name == Bytes.ofText "closure" then some (return function.closure)
  else if name == Bytes.ofText "udata" then some (return function.attributes)
  else if name == Bytes.ofText "stmt" then some (create (.statement (some function.body)))
  else if name == Bytes.ofText "args" then
    some do createList (← createAll (function.params.map .string))
  else if name == Bytes.ofText "rest" then some (textOrNothing function.rest)
  else if name == Bytes.ofText "annos" then some (return function.annotations)
  else none

def index : Handler := fun machine args => do
  let callee ← argument args 0
  let key ← argument args 1
  let function ← expect callee
  match (← nameBytes? key).bind (part? function) with
  | some part => part
  | none => orNothing (← Map.get? machine.toDispatcher function.attributes key)

def update (object : Ref) (change : Function → Function) : Action Unit := do
  match ← payload object with
  | .function function => store object (.function (change function))
  | _ => return

/-- The text of an object; none for no value. -/
def optionalText (run : Dispatcher) (object : Ref) : Action (Option String) := do
  if ← isNothing object then return none else return some (← run.toText object)

/-- The texts of objects, which are held until their turn. -/
def textsOfAll (run : Dispatcher) : List Ref → Action (List String)
  | [] => return []
  | object :: rest => do
    let text ← holding (object :: rest) (run.toText object)
    return text :: (← textsOfAll run rest)

def textsOf (run : Dispatcher) (object : Ref) : Action (List String) := do
  textsOfAll run ((← payload object).items?.getD #[]).toList

/-- Replaces a part of the function, or else stores an attribute. Maps alone can be scopes and maps of
attributes, and only a statement can be a body; other values are ignored. -/
def setIndex : Handler := fun machine args => do
  let callee ← argument args 0
  let key ← argument args 1
  let value ← argument args 2
  discard (expect callee)
  let run := machine.toDispatcher
  let name := ((← nameBytes? key).map Bytes.toText).getD ""
  let isMap := (← kind value) = .map
  holding [callee, key, value] do
    match name with
    | "name" =>
      let text ← optionalText run value
      update callee fun function => { function with name := text }
    | "rest" =>
      let text ← optionalText run value
      update callee fun function => { function with rest := text }
    | "args" =>
      let params ← textsOf run value
      update callee fun function => { function with params }
    | "stmt" =>
      match ← payload value with
      | .statement (some body) => update callee fun function => { function with body }
      | _ => pure ()
    | "closure" => if isMap then update callee fun function => { function with closure := value }
    | "udata" => if isMap then update callee fun function => { function with attributes := value }
    | "annos" => if isMap then update callee fun function => { function with annotations := value }
    | _ =>
      match ← payload callee with
      | .function function => Map.set run function.attributes key value
      | _ => pure ()
  nothing

def toText : Handler := fun _ args => do
  match (← payload (← argument args 0)).function?.bind (·.name) with
  | some name => createString ("<Function " ++ name ++ ">")
  | none => createString "<Function>"

def handler : Operation → Option Handler
  | .call => some call
  | .index => some index
  | .setIndex => some setIndex
  | .toText => some toText
  | _ => none

end ObjectModel.Behavior.Functions
