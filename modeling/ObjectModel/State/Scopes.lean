import ObjectModel.Map.Cells

/-!
# Variables

A variable is looked up from the innermost scope outwards. An assignment goes to the innermost scope
that binds the name, and otherwise to the innermost scope.
-/

namespace ObjectModel

namespace State

def valueOf? (state : State) (name : String) : Option Ref :=
  state.scopes.findSome? fun scope => state.named? scope name

/-- The scope that an assignment to a name goes to. -/
def assignmentScope (state : State) (name : String) : Ref :=
  (state.scopes.find? fun scope => (state.named? scope name).isSome).getD state.locals

end State

namespace Action

/-- The value of a variable; an unbound one has none. -/
def getVariable (name : String) : Action Ref := do
  orNothing ((← get).valueOf? name)

def setVariable (name : String) (value : Ref) : Action Unit := do
  Map.setNamed ((← get).assignmentScope name) name value

def methodsFor? (kind : Kind) : Action (Option Ref) := do
  Map.getNamed? (← get).methods kind.name

/-- The method of a kind that a key names. -/
def method (kind : Kind) (key : Ref) : Action Ref := do
  match ← nameBytes? key, ← methodsFor? kind with
  | some name, some methods => orNothing (← Map.getNamed? methods name.toText)
  | _, _ => nothing

end Action

end ObjectModel
