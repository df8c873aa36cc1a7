import ObjectModel.Decimal.Shortest
import ObjectModel.Map.Hooks
import ObjectModel.Text.Quoted

/-!
# Texts of containers

Lists, maps and cells show what they hold. While a text is being made, the containers shown so far
are noted; one that comes up again is shown as a placeholder with its address. The note is made by
whoever starts the text and goes when that text is done, so that cycles end and every container is
shown in full once. A summary shows one object alone, for whoever debugs a program.
-/

namespace ObjectModel.Rendering

open ObjectModel.Action

def hexText (value : Nat) : String := "0x" ++ String.ofList (Nat.toDigits 16 value)

/-- What stands for a container that was shown before. -/
def placeholder (object : Ref) : String :=
  "... (" ++ hexText (Heap.address object).toNat ++ ")"

/-- Runs an action while a note of shown containers is kept: the one under way, or else a new one. -/
def noting (action : Action α) : Action α := do
  match (← get).shown with
  | some _ => action
  | none =>
    modify fun state => { state with shown := some ∅ }
    followedBy action (modify fun state => { state with shown := none })

def note (object : Ref) : Action Bool := do
  match (← get).shown with
  | some shown =>
    if object.index ∈ shown then return false
    else
      modify fun state => { state with shown := some (shown.insert object.index) }
      return true
  | none => return false

/-- The text of a container, or its placeholder when it was shown before. -/
def guarded (object : Ref) (text : Action String) : Action String :=
  noting do
    if ← note object then text else return placeholder object

section Containers

variable (text : Ref → Action String)

def enclosed (left right : String) (objects : List Ref) : Action String := do
  let parts ← holding objects (objects.mapM text)
  return left ++ ", ".intercalate parts ++ right

def listText (list : Ref) : Action String :=
  holding [list] <| guarded list do
    enclosed text "[" "]" ((← payload list).items?.getD #[]).toList

def mapText (map : Ref) : Action String :=
  holding [map] <| guarded map do
    enclosed text "\x7b" "\x7d" ((← get).cells map)

def cellText (cell : Ref) : Action String :=
  holding [cell] <| guarded cell do
    match (← payload cell).cellParts? with
    | none => return "[] = "
    | some (key, value) =>
      holding [key, value] do
        let keyText ← text key
        let valueText ← text value
        return "[" ++ keyText ++ "] = " ++ valueText

end Containers

/-- The text of an object in a container. Containers in it are shown in their turn; a map with a hook
for its text, and any other object, is asked for it. -/
def textWithin (run : Dispatcher) : (rounds : Nat) → Ref → Action String
  | 0, _ => throw .exhausted
  | rounds + 1, object => do
    let inner := textWithin run rounds
    match ← kind object with
    | .list => listText inner object
    | .cell => cellText inner object
    | .map =>
      if (← Map.callableHook? object "__repr").isSome then run.represent object
      else mapText inner object
    | _ => run.represent object

def text (run : Dispatcher) (object : Ref) : Action String := textWithin run run.rounds object

/-- One line of texts, each followed by a space. The whole line shares one note. -/
def line (text : Ref → Action String) (objects : List Ref) : Action String :=
  noting (objects.foldlM (fun line object => return line ++ (← text object) ++ " ") "")

/-- A summary of an object that calls nothing: a plain value as it would be written, anything else as
its kind and its address. -/
def summary (object : Ref) : Action String := do
  match ← payload object with
  | .singlet name => return name
  | .int value => return s!"Int({value.toInt})"
  | .float value => return "Float(" ++ Decimal.shortestText value ++ ")"
  | .string value => return "Str(" ++ Quoted.quote value ++ ")"
  | other => return "<" ++ other.kind.name ++ " @ " ++ hexText (Heap.address object).toNat ++ ">"

end ObjectModel.Rendering
