import ObjectModel.Map.Cells
import ObjectModel.Text.Search

/-!
# Walking over objects

A container answers `iterate` with a stepping function, which takes the container and a scratch map
and gives one element after the other until it gives no value. The position lives in the scratch map:
an offset under `idx` and a bound under `sz` for strings and buffers, and under `idx` a cursor for
lists and maps. A cursor belongs to one container and starts afresh when it meets another.
-/

namespace ObjectModel.Iteration

open ObjectModel.Action

/-- The int under a name of the scratch map. -/
def slot? (scratch : Ref) (name : String) : Action (Option Int64) := do
  match ← Map.getNamed? scratch name with
  | some value => return (← payload value).int?
  | none => return none

/-- The offset and the bound of a walk, which start as 0 and the length. -/
def offsets (scratch : Ref) (length : Int64) : Action (Int64 × Int64) := do
  return ((← slot? scratch "idx").getD 0, (← slot? scratch "sz").getD length)

def advance (scratch : Ref) (offset bound : Int64) : Action Unit := do
  Map.setNamed scratch "idx" (← createInt (offset + 1))
  Map.setNamed scratch "sz" (← createInt bound)

def stepString : Handler := fun _ args => do
  let text := (← payload (← argument args 0)).stringOrEmpty
  let scratch ← argument args 1
  let (offset, bound) ← offsets scratch (Integer.ofLength text.utf8ByteSize)
  match if offset < bound then Bytes.ofTextAt? text offset.toInt else none with
  | some byte =>
    advance scratch offset bound
    createString (Bytes.toText [byte])
  | none => nothing

/-- The next byte of a buffer, as a view of one byte that keeps the buffer alive. -/
def stepBuffer : Handler := fun _ args => do
  let container ← argument args 0
  let scratch ← argument args 1
  match (← payload container).buffer?.map Buffer.view with
  | some (.sized address length) =>
    let (offset, bound) ← offsets scratch (Integer.ofLength length)
    if offset < bound ∧ 0 ≤ offset ∧ offset.toInt < length then
      advance scratch offset bound
      create (.buffer {
        view := .sized (View.displaced address offset.toInt) 1, anchors := [container] })
    else nothing
  | _ => nothing

/-- The position to read next. A missing cursor, and one of another container, is replaced by one
that starts afresh. -/
def nextPosition (container scratch : Ref) : Action Nat := do
  let fresh : Action Nat := do
    let address := Heap.address (← get).heap.next
    let cursor ← create (.buffer {
      view := .sized address 0, ownership := .resource (.cursor 1 container) })
    Map.setNamed scratch "idx" cursor
    return 0
  match ← Map.getNamed? scratch "idx" with
  | none => fresh
  | some cursor =>
    match ← payload cursor with
    | .buffer buffer =>
      match buffer.ownership with
      | .resource (.cursor position walked) =>
        if walked = container then
          store cursor (.buffer {
            buffer with ownership := .resource (.cursor (position + 1) walked) })
          return position
        else fresh
      | _ => fresh
    | _ => fresh

def stepList : Handler := fun _ args => do
  let list ← argument args 0
  let position ← nextPosition list (← argument args 1)
  match ← payload list with
  | .list items => orNothing items[position]?
  | _ => nothing

def stepMap : Handler := fun _ args => do
  let map ← argument args 0
  let position ← nextPosition map (← argument args 1)
  match ← payload map with
  | .map cells =>
    match cells[position]? with
    | some cell => orNothing ((← payload cell).cellParts?.map (·.1))
    | none => nothing
  | _ => nothing

/-- The answer to `iterate`: a new stepping function. -/
def stepper (function : Builtin) : Handler := fun _ _ => createNative (.builtin function)

/-- The elements that a stepping function gives for a container, at most `limit` of them. -/
def collect (run : Dispatcher) (step container scratch : Ref) :
    (limit : Nat) → Action (List Ref)
  | 0 => return []
  | limit + 1 => do
    let item ← run.call step [container, scratch]
    if ← isNothing item then return []
    else return item :: (← collect run step container scratch limit)

def elements (run : Dispatcher) (container : Ref) (limit : Nat) : Action (List Ref) := do
  let step ← run.iterate container
  let scratch ← createMap
  holding [step, scratch] (collect run step container scratch limit)

end ObjectModel.Iteration
