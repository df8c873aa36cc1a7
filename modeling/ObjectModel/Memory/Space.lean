import ObjectModel.Memory.Format

/-!
# Memory

Memory is a row of blocks. Every block has a range of addresses of its own, so that addresses in one
block are consecutive and different blocks never meet. What is read or written stays inside the
block of its first address. Blocks are not given back: the block of an owner that was released is out of
reach, but for a view of a made-up address and one that an exchange cut off from its owner. Main statement:
which bytes a block holds after a write.
-/

namespace ObjectModel

namespace Memory

/-- The addresses set apart for one block; no block is larger. -/
def lane : Nat := Nat.pow 2 36

/-- The number of the first lane; the addresses below it stand for other things than blocks. -/
def firstLane : Nat := Nat.pow 2 12

def lanes : Nat := UInt64.size / lane - firstLane

theorem lane_eq : lane = 68719476736 := rfl

theorem firstLane_eq : firstLane = 4096 := rfl

theorem lanes_eq : lanes = 268431360 := rfl

end Memory

/-- The blocks of memory, in the order in which they were made. Each has a lane to itself. -/
structure Memory where
  blocks : Array ByteArray := #[]
  count_le : blocks.size ≤ Memory.lanes := by exact Nat.zero_le _
  size_le : ∀ block ∈ blocks, block.size ≤ Memory.lane := by
    exact fun _ hmem => absurd hmem (Array.not_mem_empty _)

namespace Memory

def empty : Memory := {}

/-- The address that stands for a block without bytes. -/
def emptyBlock : Address := 1

def base (index : Nat) : Address := UInt64.ofNat ((index + firstLane) * lane)

/-- Whether `size` bytes can be had with an alignment, which must be a power of two; smaller ones
are raised to eight. Nothing is given for no bytes, and neither number may exceed a lane. -/
def canAllocate (size alignment : Nat) : Bool :=
  let alignment := max alignment 8
  0 < size && Nat.pow 2 (Nat.log2 alignment) = alignment && max size alignment ≤ lane

/-- Whether a block of `size` bytes can be made: a lane holds it, and one is left. -/
def Fits (memory : Memory) (size : Nat) : Prop :=
  size ≤ lane ∧ (size ≠ 0 → memory.blocks.size < lanes)

instance (memory : Memory) (size : Nat) : Decidable (memory.Fits size) :=
  inferInstanceAs (Decidable (_ ∧ _))

theorem fits_zero (memory : Memory) : memory.Fits 0 := ⟨Nat.zero_le _, absurd rfl⟩

theorem count_eq_of_not_fits {memory : Memory} {size : Nat} (h : ¬ memory.Fits size) (hsize : size ≤ lane) :
    memory.blocks.size = lanes :=
  Nat.le_antisymm memory.count_le (Nat.le_of_not_lt fun hleft => h ⟨hsize, fun _ => hleft⟩)

theorem Fits.count_lt {memory : Memory} {bytes : Bytes} (h : memory.Fits bytes.length)
    (hne : bytes ≠ []) : memory.blocks.size < lanes :=
  h.2 (mt List.length_eq_zero_iff.mp hne)

def push (memory : Memory) (bytes : Bytes) (hfits : memory.Fits bytes.length) (hne : bytes ≠ []) :
    Memory where
  blocks := memory.blocks.push bytes.toByteArray
  count_le := by
    rw [Array.size_push]
    exact hfits.count_lt hne
  size_le block hblock := by
    rcases Array.mem_push.mp hblock with hold | rfl
    · exact memory.size_le block hold
    · rw [List.size_toByteArray]
      exact hfits.1

/-- A new block that holds the bytes, and its address. No block is made of no bytes, or of bytes that do
not fit. -/
def allocate (memory : Memory) (bytes : Bytes) : Address × Memory :=
  if h : memory.Fits bytes.length ∧ bytes ≠ [] then
    (base memory.blocks.size, memory.push bytes h.1 h.2)
  else (emptyBlock, memory)

def block (memory : Memory) (index : Nat) : ByteArray := memory.blocks[index]?.getD .empty

/-- The block of an address and the offset in it. -/
def locate? (memory : Memory) (address : Address) : Option (Nat × Nat) :=
  let lanes := address.toNat / lane
  if firstLane ≤ lanes ∧ lanes < firstLane + memory.blocks.size then
    some (lanes - firstLane, address.toNat % lane)
  else none

/-- The number of bytes from an address to the end of its block. -/
def room (memory : Memory) (address : Address) : Nat :=
  match memory.locate? address with
  | some (index, offset) => (memory.block index).size - offset
  | none => 0

def read (memory : Memory) (address : Address) (length : Nat) : Bytes :=
  match memory.locate? address with
  | some (index, offset) => Bytes.part (memory.block index) offset length
  | none => []

/-- Bytes laid over a block from an offset on; what would stick out is dropped. -/
def splice (block : ByteArray) (offset : Nat) (bytes : Bytes) : ByteArray :=
  block.extract 0 offset ++ (bytes.take (block.size - offset)).toByteArray ++
    block.extract (offset + bytes.length) block.size

theorem toList_splice (block : ByteArray) (offset : Nat) (bytes : Bytes) :
    (splice block offset bytes).data.toList =
      block.data.toList.take offset ++ bytes.take (block.data.toList.length - offset) ++
        block.data.toList.drop (offset + bytes.length) := by
  simp only [splice, ByteArray.toList_data_append, ByteArray.data_extract, Array.toList_extract,
    List.extract_eq_take_drop, List.data_toByteArray, List.drop_zero, Nat.sub_zero,
    Array.length_toList, ByteArray.size_data]
  rw [List.take_of_length_le (l := block.data.toList.drop _) (by simp)]

theorem size_splice (block : ByteArray) (offset : Nat) (bytes : Bytes) :
    (splice block offset bytes).size = block.size := by
  have hlist := congrArg List.length (toList_splice block offset bytes)
  simp only [List.length_append, List.length_take, List.length_drop, Array.length_toList] at hlist
  simp only [ByteArray.size_data] at hlist
  omega

def overlay (memory : Memory) (index offset : Nat) (bytes : Bytes) : Memory where
  blocks := memory.blocks.modify index (splice · offset bytes)
  count_le := by
    rw [Array.size_modify]
    exact memory.count_le
  size_le block hblock := by
    obtain ⟨place, hplace, rfl⟩ := Array.mem_iff_getElem.mp hblock
    rw [Array.getElem_modify]
    split
    · rw [size_splice]
      exact memory.size_le _ (Array.getElem_mem _)
    · exact memory.size_le _ (Array.getElem_mem _)

def write (memory : Memory) (address : Address) (bytes : Bytes) : Memory :=
  match memory.locate? address with
  | some (index, offset) => memory.overlay index offset bytes
  | none => memory

end Memory

end ObjectModel
