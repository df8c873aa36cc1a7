import ObjectModel.Machine

/-!
# Cells of maps

A map is a list of cells in the order of insertion. Two keys are the same when both are names with
equal bytes, or else when the probe compares equal to the key. Lookups take the first cell that
matches; a store replaces the value of that cell, or appends a cell. A name by itself only ever
matches names, so that its lookups run no operation. Nothing here knows of hooks.
-/

namespace ObjectModel

namespace State

/-- The cells of a map; other objects have none. -/
def cells (state : State) (map : Ref) : List Ref :=
  match state.payload map with
  | .map cells => cells
  | _ => []

def cellValue? (state : State) (cell : Ref) : Option Ref :=
  (state.payload cell).cellParts?.map (·.2)

def cellIsNamed (state : State) (name : String) (cell : Ref) : Bool :=
  match state.payload cell with
  | .cell key _ => state.isNamed key name
  | _ => false

/-- The first cell under a name. -/
def findNamed? (state : State) (map : Ref) (name : String) : Option Ref :=
  (state.cells map).find? (state.cellIsNamed name)

def named? (state : State) (map : Ref) (name : String) : Option Ref :=
  (state.findNamed? map name).bind state.cellValue?

def entries (state : State) (map : Ref) : List (Ref × Ref) :=
  (state.cells map).filterMap fun cell => (state.payload cell).cellParts?

end State

namespace Map

open ObjectModel.Action

def getNamed? (map : Ref) (name : String) : Action (Option Ref) := return (← get).named? map name

def replaceValue (cell value : Ref) : Action Unit := do
  match ← payload cell with
  | .cell key _ => store cell (.cell key value)
  | _ => return

def appendCell (map cell : Ref) : Action Unit := do
  match ← payload map with
  | .map cells => store map (.map (cells ++ [cell]))
  | _ => return

def setNamed (map : Ref) (name : String) (value : Ref) : Action Unit := do
  match (← get).findNamed? map name with
  | some cell => replaceValue cell value
  | none =>
    let key ← createString name
    appendCell map (← create (.cell key value))

def ofNamed (entries : List (String × Ref)) : Action Ref := do
  let cells ← entries.mapM fun (name, value) => do
    let key ← createString name
    create (.cell key value)
  create (.map cells)

variable (run : Dispatcher)

/-- Whether the probe, with its bytes if it is a name, matches a key. -/
def keyMatches (probe : Ref) (name : Option Bytes) (key : Ref) : Action Bool := do
  match name, ← nameBytes? key with
  | some name, some other => return name == other
  | _, _ => return (← run.compare probe key) = 0

def firstMatch (probe : Ref) (name : Option Bytes) : List Ref → Action (Option Ref)
  | [] => return none
  | cell :: rest => do
    match (← payload cell).cellParts? with
    | none => firstMatch probe name rest
    | some (key, _) =>
      if ← keyMatches run probe name key then return some cell else firstMatch probe name rest

/-- The cell of a map that a key matches. -/
def findCell (map key : Ref) : Action (Option Ref) := do
  let cells := (← get).cells map
  firstMatch run key (← nameBytes? key) cells

def get? (map key : Ref) : Action (Option Ref) := do
  match ← findCell run map key with
  | some cell => return (← get).cellValue? cell
  | none => return none

def set (map key value : Ref) : Action Unit := do
  match ← findCell run map key with
  | some cell => replaceValue cell value
  | none => appendCell map (← create (.cell key value))

end Map

end ObjectModel
