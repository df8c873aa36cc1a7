import Mathlib.Data.List.Basic
import ObjectModel.Builtin.Prelude
import ObjectModel.Proofs.Comparison.Contents
import ObjectModel.Proofs.Maps.Names

/-!
# Histories of raw stores

A map that was empty is filled by stores that ask no hook (`Stored`). Between the stores anything may
happen that leaves the map and its cells alone, and what their keys hold.
-/

namespace ObjectModel

open ObjectModel.Action

/-- What names and ints are told apart by: the bytes of a name, or the int. -/
inductive Label where
  | name (bytes : Bytes)
  | number (value : Int64)
  deriving DecidableEq

def State.label? (s : State) (key : Ref) : Option Label :=
  match s.payload key with
  | .int n => some (.number n)
  | _ => (s.nameBytes? key).map .name

/-- A store that asks no hook: under a key, under a name, or by the function that programs have for it. -/
inductive RawStore where
  | byKey (key value : Ref)
  | byName (name : String) (value : Ref)
  | byCall (key value : Ref)

namespace RawStore

def run (machine : Machine) (map : Ref) : RawStore → Action Unit
  | .byKey key value => Map.set machine.toDispatcher map key value
  | .byName name value => Map.setNamed map name value
  | .byCall key value => discard (Prelude.rawSet machine [map, key, value])

def value : RawStore → Ref
  | .byKey _ value | .byName _ value | .byCall _ value => value

def label? (s : State) : RawStore → Option Label
  | .byKey key _ | .byCall key _ => s.label? key
  | .byName name _ => some (.name (Bytes.ofText name))

def Readable (s : State) : RawStore → Prop
  | .byKey key _ | .byCall key _ => s.Readable key
  | .byName _ _ => True

end RawStore

/-- A map and its cells are left as they were, and what their keys hold. -/
structure State.Undisturbed (s t : State) (map : Ref) : Prop where
  kept : t.payload map = s.payload map
  cells : ∀ cell ∈ s.cells map, t.payload cell = s.payload cell
  keys : ∀ key ∈ s.keys map, s.Unchanged t key
  size : s.heap.size ≤ t.heap.size
  blocks : s.memory.blocks.size ≤ t.memory.blocks.size

/-- A map was empty, and raw stores were made into it: what their keys are told apart by, and the values,
from the first to the last. -/
inductive Stored (host : Host) (map : Ref) : List (Option Label × Ref) → State → Prop
  | empty {s : State} (h : s.payload map = .map []) : Stored host map [] s
  | store {log : List (Option Label × Ref)} {s t : State} {rounds : Nat} {store : RawStore}
      (h : Stored host map log s) (hreadable : store.Readable s)
      (hrun : (store.run (machine host (rounds + 2)) map).run s = .ok () t) :
      Stored host map (log ++ [(store.label? s, store.value)]) t
  | meanwhile {log : List (Option Label × Ref)} {s t : State} (h : Stored host map log s)
      (hkept : s.Undisturbed t map) : Stored host map log t

namespace State

variable {s t : State} {map key : Ref}

theorem Unchanged.label? (h : s.Unchanged t key) : t.label? key = s.label? key := by
  have hseen := h.seen
  unfold State.label?
  rw [h.nameBytes?]
  cases hkey : s.payload key with
  | int n => rw [payload_of_seen hseen hkey rfl]
  | _ =>
    rw [hkey] at hseen
    cases ht : t.payload key <;> simp [ht] at hseen <;> rfl

theorem Undisturbed.cells_eq (h : s.Undisturbed t map) : t.cells map = s.cells map := by
  simp only [State.cells, h.kept]

end State

end ObjectModel
