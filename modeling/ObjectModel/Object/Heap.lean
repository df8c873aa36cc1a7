import ObjectModel.Object.Payload

/-!
# The heap

The heap gives every object its payload. New objects take the next free reference; references are
never used again, so that an identity outlives its object. Main statements: what is read after a
write, an exchange or a creation.
-/

namespace ObjectModel

/-- The payloads of all objects ever made. -/
structure Heap where
  payloads : Array Payload := #[]

namespace Heap

def size (heap : Heap) : Nat := heap.payloads.size

def Contains (heap : Heap) (object : Ref) : Prop := object.index < heap.size

def get (heap : Heap) (object : Ref) : Payload :=
  heap.payloads.getD object.index (.singlet "")

def set (heap : Heap) (object : Ref) (payload : Payload) : Heap :=
  ⟨heap.payloads.setIfInBounds object.index payload⟩

/-- The reference that the next object takes. -/
def next (heap : Heap) : Ref := ⟨heap.size⟩

def push (heap : Heap) (payload : Payload) : Heap := ⟨heap.payloads.push payload⟩

def swap (heap : Heap) (a b : Ref) : Heap :=
  let first := heap.get a
  let second := heap.get b
  (heap.set a second).set b first

/-- The address of the first object. -/
def firstAddress : Nat := 0x560000000000

/-- The address that stands for an object's identity in texts. Objects lie in no block of memory. -/
def address (object : Ref) : Address := UInt64.ofNat (firstAddress + 64 * object.index)

def ofAddress? (heap : Heap) (address : Nat) : Option Ref :=
  let offset := address - firstAddress
  if firstAddress ≤ address ∧ offset % 64 = 0 ∧ offset / 64 < heap.size then some ⟨offset / 64⟩
  else none

theorem get_set_same (heap : Heap) (object : Ref) (payload : Payload)
    (made : heap.Contains object) : (heap.set object payload).get object = payload := by
  simp only [Contains, size] at made
  simp [get, set, Array.getD_eq_getD_getElem?, made]

theorem get_set_other (heap : Heap) (object other : Ref) (payload : Payload)
    (different : object ≠ other) : (heap.set object payload).get other = heap.get other := by
  have : object.index ≠ other.index := fun same => different (by cases object; cases other; simp_all)
  simp [get, set, Array.getD_eq_getD_getElem?, this]

theorem get_push_next (heap : Heap) (payload : Payload) :
    (heap.push payload).get heap.next = payload := by
  simp [get, push, next, size, Array.getD_eq_getD_getElem?]

theorem get_push_old (heap : Heap) (payload : Payload) (object : Ref)
    (made : heap.Contains object) : (heap.push payload).get object = heap.get object := by
  simp only [Contains, size] at made
  simp [get, push, Array.getD_eq_getD_getElem?, Array.getElem?_push, Nat.ne_of_lt made]

end Heap

end ObjectModel
