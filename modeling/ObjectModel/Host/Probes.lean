import ObjectModel.Machine

/-!
# Native functions for observing calls

Small functions that an embedding program can offer: they show what a call passes on, how errors
travel, and what happens when a function leaves the frames out of balance.
-/

namespace ObjectModel.Probes

open ObjectModel.Action

def echo (_ : Dispatcher) (args : List Ref) : Action Ref := createList args

def pick (index : Nat) (_ : Dispatcher) (args : List Ref) : Action Ref := argument args index

def count (_ : Dispatcher) (args : List Ref) : Action Ref :=
  createInt (Int64.ofNat args.length)

def boom (_ : Dispatcher) (_ : List Ref) : Action Ref := do
  raiseObject (← createString "boom")

def fail (_ : Dispatcher) (_ : List Ref) : Action Ref := raise .integerDivisionByZero

/-- Leaves a frame behind for its first argument. -/
def stray (_ : Dispatcher) (args : List Ref) : Action Ref := do
  pushFrame (← argument args 0)
  createInt 1

/-- Whether a text is being made. -/
def rendering (_ : Dispatcher) (_ : List Ref) : Action Ref := do
  createString (if (← get).shown.isSome then "yes" else "no")

def native (name : String) : Option (Dispatcher → List Ref → Action Ref) :=
  match name with
  | "echo" => some echo
  | "first" => some (pick 0)
  | "second" => some (pick 1)
  | "count" => some count
  | "boom" => some boom
  | "fail" => some fail
  | "stray" => some stray
  | "rendering" => some rendering
  | _ => none

/-- A loader of libraries given as a list: the handle of a library is its place, from one on. -/
def loaderOf (libraries : List (String × List (String × Nat))) : Loader where
  openLibrary path := (libraries.findIdx? (·.1 = path)).map (· + 1)
  symbol handle name :=
    if handle = 0 then none else libraries[handle - 1]?.bind (·.2.lookup name)

end ObjectModel.Probes
