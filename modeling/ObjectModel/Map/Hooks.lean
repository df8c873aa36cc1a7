import ObjectModel.Map.Cells

/-!
# Hooks of maps

A value that a map holds under certain names is a hook: it overrides how the map answers. A hook whose
value stands for no value is no hook.
-/

namespace ObjectModel.Map

open ObjectModel.Action

def hook? (map : Ref) (name : String) : Action (Option Ref) := do
  match ← getNamed? map name with
  | some value => return if ← isNothing value then none else some value
  | none => return none

/-- The hook under a name, if it can be called. -/
def callableHook? (map : Ref) (name : String) : Action (Option Ref) := do
  match ← hook? map name with
  | some hook => return if (← get).isCallable hook then some hook else none
  | none => return none

end ObjectModel.Map
