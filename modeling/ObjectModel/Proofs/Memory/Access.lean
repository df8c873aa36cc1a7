import ObjectModel.Proofs.Laws.Buffers
import ObjectModel.Proofs.Memory.Keepers
import ObjectModel.Proofs.Memory.Layouts

/-!
# Reading what was written

In memory that is there, a scalar that fits is written, reads back as its format keeps it, and leaves
every byte outside the access as it was, so that readings apart from it give what they gave before
(`set_get`).
-/

namespace ObjectModel

namespace Memory

variable {memory : Memory} {address start : Address} {index offset : Nat} {bytes : Bytes}

def byte? (memory : Memory) (address : Address) : Option UInt8 :=
  (memory.locate? address).bind fun (index, offset) => (memory.block index).data.toList[offset]?

def Apart (first : Address) (length : Nat) (second : Address) (count : Nat) : Prop :=
  first.toNat + length ≤ second.toNat ∨ second.toNat + count ≤ first.toNat

/-- The bytes from an address on lie in one block. No block reaches beyond its lane. -/
def Live (memory : Memory) (address : Address) (length : Nat) : Prop :=
  ∃ index offset, memory.locate? address = some (index, offset) ∧
    offset + length ≤ (memory.block index).size ∧ offset + length ≤ lane

theorem Apart.mono (h : Apart address length start count) (hle : shorter ≤ length) :
    Apart address shorter start count := by
  rcases h with hbefore | hbehind
  · exact .inl (by omega)
  · exact .inr hbehind

-- ---------------------------------------------------------------------------
-- Addresses
-- ---------------------------------------------------------------------------

theorem locate?_eq_some_iff : memory.locate? address = some (index, offset) ↔
    address.toNat = (index + firstLane) * lane + offset ∧ offset < lane ∧
      index < memory.blocks.size := by
  simp only [Memory.locate?]
  constructor
  · intro h
    split at h
    case isTrue hlanes =>
      simp only [Option.some.injEq, Prod.mk.injEq] at h
      simp only [lane_eq, firstLane_eq] at h hlanes ⊢
      omega
    case isFalse => cases h
  · rintro ⟨haddress, hoffset, hindex⟩
    have hlanes : address.toNat / lane = index + firstLane ∧ address.toNat % lane = offset := by
      simp only [lane_eq, firstLane_eq] at *
      omega
    rw [if_pos (by omega), hlanes.1, hlanes.2, Nat.add_sub_cancel]

/-- An address further on in the same lane is found further on in the same block. -/
theorem locate?_further (h : memory.locate? address = some (index, offset)) {further : Nat}
    (hlane : offset + further < lane) :
    memory.locate? (View.displaced address further) = some (index, offset + further) := by
  have hbound := address.toNat_lt
  obtain ⟨haddress, hoffset, hindex⟩ := locate?_eq_some_iff.mp h
  refine locate?_eq_some_iff.mpr ⟨?_, hlane, hindex⟩
  simp only [View.toNat_displaced, UInt64.size, lane_eq, firstLane_eq] at *
  omega

theorem Live.ne_zero (h : memory.Live address length) : address ≠ 0 := by
  rintro rfl
  obtain ⟨index, offset, hfound, -⟩ := h
  obtain ⟨haddress, -⟩ := locate?_eq_some_iff.mp hfound
  simp only [UInt64.toNat_zero, lane_eq, firstLane_eq] at haddress
  omega

theorem Live.le_room (h : memory.Live address length) : length ≤ memory.room address := by
  obtain ⟨index, offset, hfound, hsize, -⟩ := h
  simp only [room, hfound]
  omega

theorem Live.locate? (h : memory.Live address length) {further count : Nat} (hcount : 0 < count)
    (hfits : further + count ≤ length) : ∃ index offset,
      memory.locate? (View.displaced address further) = some (index, offset) ∧
        offset + count ≤ (memory.block index).size := by
  obtain ⟨index, offset, hfound, hsize, hlane⟩ := h
  exact ⟨index, offset + further, locate?_further hfound (by omega), by omega⟩

-- ---------------------------------------------------------------------------
-- Bytes after a write
-- ---------------------------------------------------------------------------

@[simp] theorem locate?_write (memory : Memory) (start address : Address) (bytes : Bytes) :
    (memory.write start bytes).locate? address = memory.locate? address := by
  simp only [Memory.locate?, count_write]

@[simp] theorem room_write (memory : Memory) (start address : Address) (bytes : Bytes) :
    (memory.write start bytes).room address = memory.room address := by
  simp only [room, locate?_write, size_block_write]

theorem block_write (h : memory.locate? start = some (index, offset)) (other : Nat) :
    (memory.write start bytes).block other =
      if other = index then splice (memory.block index) offset bytes else memory.block other := by
  obtain ⟨-, -, hindex⟩ := locate?_eq_some_iff.mp h
  simp only [write, h, overlay, block, Array.getElem?_modify]
  by_cases heq : index = other
  · subst heq
    simp [hindex]
  · simp [heq, Ne.symm heq]

theorem getElem?_splice (block : ByteArray) (h : offset + bytes.length ≤ block.size) (place : Nat) :
    (splice block offset bytes).data.toList[place]? =
      if offset ≤ place ∧ place < offset + bytes.length then bytes[place - offset]?
      else block.data.toList[place]? := by
  have hsize : block.data.toList.length = block.size := by simp
  have htake : (block.data.toList.take offset).length = offset := by rw [List.length_take]; omega
  rw [toList_splice, List.take_of_length_le (l := bytes) (by omega), List.append_assoc]
  by_cases hbefore : place < offset
  · rw [List.getElem?_append_left (by omega), List.getElem?_take, if_pos hbefore, if_neg (by omega)]
  · rw [List.getElem?_append_right (by omega), htake]
    by_cases hbehind : offset + bytes.length ≤ place
    · rw [List.getElem?_append_right (by omega), List.getElem?_drop, if_neg (by omega)]
      congr 1
      omega
    · rw [List.getElem?_append_left (by omega), if_pos (by omega)]

theorem read_write_same (h : memory.locate? start = some (index, offset))
    (hfits : offset + bytes.length ≤ (memory.block index).size) :
    ∃ rest, ∀ length, (memory.write start bytes).read start length = (bytes ++ rest).take length := by
  have hsize : (memory.block index).data.toList.length = (memory.block index).size := by simp
  have hlocated : (memory.write start bytes).locate? start = some (index, offset) := by
    rw [locate?_write, h]
  refine ⟨(memory.block index).data.toList.drop (offset + bytes.length), fun length => ?_⟩
  rw [read_of_locate? length hlocated, Bytes.part_eq, block_write h, if_pos rfl, toList_splice,
    List.take_of_length_le (l := bytes) (by omega), List.append_assoc,
    List.drop_left' (by rw [List.length_take]; omega)]

theorem getElem?_block_write (h : memory.locate? start = some (index, offset))
    (hfits : offset + bytes.length ≤ (memory.block index).size)
    (hfound : memory.locate? address = some (other, place)) (further : Nat)
    (hapart : address.toNat + further < start.toNat ∨
      start.toNat + bytes.length ≤ address.toNat + further) :
    ((memory.write start bytes).block other).data.toList[place + further]? =
      (memory.block other).data.toList[place + further]? := by
  obtain ⟨hstart, -⟩ := locate?_eq_some_iff.mp h
  obtain ⟨haddress, -⟩ := locate?_eq_some_iff.mp hfound
  rw [block_write h]
  split
  case isTrue hsame =>
    subst hsame
    rw [getElem?_splice _ hfits, if_neg (by omega)]
  case isFalse => rfl

theorem byte?_write (h : memory.locate? start = some (index, offset))
    (hfits : offset + bytes.length ≤ (memory.block index).size)
    (hapart : Apart address 1 start bytes.length) :
    (memory.write start bytes).byte? address = memory.byte? address := by
  simp only [byte?, locate?_write]
  cases hfound : memory.locate? address with
  | none => rfl
  | some found => exact getElem?_block_write h hfits hfound 0 (by unfold Apart at hapart; omega)

theorem length_read_write (memory : Memory) (start address : Address) (bytes : Bytes) (length : Nat) :
    ((memory.write start bytes).read address length).length = (memory.read address length).length := by
  have hsize (index : Nat) : ((memory.write start bytes).block index).data.toList.length =
      (memory.block index).data.toList.length := by simp [size_block_write]
  simp only [read, locate?_write]
  cases memory.locate? address with
  | none => rfl
  | some found => simp only [Bytes.part_eq, List.length_take, List.length_drop, hsize]

theorem read_write_apart (h : memory.locate? start = some (index, offset))
    (hfits : offset + bytes.length ≤ (memory.block index).size)
    (hapart : Apart address length start bytes.length) :
    (memory.write start bytes).read address length = memory.read address length := by
  simp only [read, locate?_write]
  cases hfound : memory.locate? address with
  | none => rfl
  | some found =>
    refine List.ext_getElem? fun further => ?_
    simp only [Bytes.part_eq, List.getElem?_take, List.getElem?_drop]
    split
    case isTrue hlt =>
      exact getElem?_block_write h hfits hfound further (by unfold Apart at hapart; omega)
    case isFalse => rfl

theorem take_read (memory : Memory) (address : Address) (count length : Nat) :
    (memory.read address length).take count = memory.read address (min count length) := by
  simp only [read]
  cases memory.locate? address with
  | none => simp
  | some found => simp only [Bytes.part_eq, List.take_take]

end Memory

theorem Bytes.untilZero_congr {bytes others : Bytes} (hlength : others.length = bytes.length)
    (h : others.take (bytes.untilZero.length + 1) = bytes.take (bytes.untilZero.length + 1)) :
    others.untilZero = bytes.untilZero := by
  induction bytes generalizing others with
  | nil => rw [List.length_eq_zero_iff.mp hlength]
  | cons byte rest ih =>
    obtain ⟨other, more, rfl⟩ := List.exists_cons_of_length_eq_add_one hlength
    simp only [List.take_succ_cons, List.cons.injEq] at h
    obtain ⟨rfl, h⟩ := h
    by_cases hzero : other = 0
    · simp [untilZero, hzero]
    · have hcons (tail : Bytes) : untilZero (other :: tail) = other :: untilZero tail := by
        simp [untilZero, hzero]
      rw [hcons, hcons, ih (by simpa using hlength) (by simpa [hcons] using h)]

-- ---------------------------------------------------------------------------
-- Readings after a write
-- ---------------------------------------------------------------------------

namespace View

open Memory

variable {memory : Memory} {start : Address} {index offset : Nat} {bytes : Bytes} {format : Format}

theorem length_encoding (h : encoding format scalar = some bytes) :
    bytes.length = roomNeeded format scalar := by
  unfold encoding roomNeeded Format.width? at *
  cases hfixed : format.fixed? with
  | none =>
    cases scalar with
    | bytes text =>
      simp only [hfixed, Option.some.injEq] at h
      simp [← h]
    | _ => simp [hfixed] at h
  | some fixed =>
    obtain ⟨width, layout⟩ := fixed
    simp only [hfixed] at h
    cases layout <;> cases scalar <;> simp [Format.Layout.encode?] at h <;> simp [← h]

theorem width_pos (h : format.fixed? = some (width, layout)) : 0 < width := by
  cases format <;> simp [Format.fixed?] at h <;> omega

theorem roomNeeded_fixed (h : format.fixed? = some (width, layout)) (scalar : Scalar) :
    roomNeeded format scalar = width := by
  simp [roomNeeded, Format.width?, h]

/-- What is read apart from a write is read as before. -/
theorem scalarAt_write (h : memory.locate? start = some (index, offset))
    (hfits : offset + bytes.length ≤ (memory.block index).size) (address : Address) (room : Nat)
    (hapart : ∀ found ∈ scalarAt memory format address room,
      Apart address (roomNeeded format found) start bytes.length) :
    scalarAt (memory.write start bytes) format address room = scalarAt memory format address room := by
  unfold scalarAt decodeHead at *
  cases hfixed : format.fixed? with
  | some fixed =>
    obtain ⟨width, layout⟩ := fixed
    simp only [hfixed, Format.width?, Option.map_some, Option.getD_some] at hapart ⊢
    rw [length_read_write]
    split
    case isTrue hroom =>
      rw [if_pos hroom] at hapart
      have hwidth := hapart _ rfl
      rw [roomNeeded_fixed hfixed] at hwidth
      rw [read_write_apart h hfits (hwidth.mono (Nat.min_le_left ..))]
    case isFalse => rfl
  | none =>
    simp only [hfixed, Format.width?, Option.map_none, Option.getD_none] at hapart ⊢
    have htext := hapart _ rfl
    simp only [roomNeeded, Format.width?, hfixed, Option.map_none] at htext
    congr 2
    refine Bytes.untilZero_congr (length_read_write ..) ?_
    rw [take_read, take_read, read_write_apart h hfits (htext.mono (Nat.min_le_left ..))]

theorem get?_write (h : memory.locate? start = some (index, offset))
    (hfits : offset + bytes.length ≤ (memory.block index).size) (view : View) (place : Int)
    (hapart : ∀ found ∈ view.get? memory format place,
      Apart (displaced view.address place) (roomNeeded format found) start bytes.length) :
    view.get? (memory.write start bytes) format place = view.get? memory format place := by
  cases view with
  | sized address length =>
    simp only [get?, room_write] at hapart ⊢
    split
    case isTrue hinside =>
      rw [if_pos hinside] at hapart
      exact scalarAt_write h hfits _ _ hapart
    case isFalse => rfl
  | unsized address =>
    simp only [get?, room_write] at hapart ⊢
    split
    case isTrue => rfl
    case isFalse hzero =>
      rw [if_neg hzero] at hapart
      exact scalarAt_write h hfits _ _ hapart

-- ---------------------------------------------------------------------------
-- Round trips
-- ---------------------------------------------------------------------------

theorem roomNeeded_le_reach {room : Nat} (h : roomNeeded format scalar ≤ room) :
    roomNeeded format scalar ≤ (format.width?.map (min · room)).getD room := by
  cases hwidth : format.width? with
  | none => exact h
  | some width =>
    have hneeded : roomNeeded format scalar = width := by simp only [roomNeeded, hwidth]
    rw [hneeded] at h ⊢
    exact Nat.le_min.mpr ⟨Nat.le_refl _, h⟩

theorem roomNeeded_pos (h : format.Keeps scalar kept) : 0 < roomNeeded format scalar := by
  cases h with
  | int h =>
    obtain ⟨width, layout, bytes, hfixed, -⟩ := Format.decode_encode_int h
    rw [roomNeeded_fixed hfixed]
    exact width_pos hfixed
  | _ => exact Nat.succ_pos _

/-- A scalar that fits into a region of live memory is written there. It reads back as its format keeps
it, no byte outside the access is another, and readings apart from it give what they gave. -/
theorem set_get {memory : Memory} {address : Address} {length offset : Nat} {format : Format}
    {scalar kept : Scalar} (hlive : memory.Live address length) (hkeeps : format.Keeps scalar kept)
    (hfits : offset + roomNeeded format scalar ≤ length) :
    ∃ after, (View.sized address length).set? memory format offset scalar = some after ∧
      (View.sized address length).get? after format offset = some kept ∧
      (∀ other, Apart other 1 (displaced address offset) (roomNeeded format scalar) →
        after.byte? other = memory.byte? other) ∧
      ∀ view form place, (∀ found ∈ View.get? view memory form place,
          Apart (displaced view.address place) (roomNeeded form found) (displaced address offset)
            (roomNeeded format scalar)) →
        view.get? after form place = view.get? memory form place := by
  have hpos := roomNeeded_pos hkeeps
  obtain ⟨bytes, hencoding, hdecode⟩ := decodeHead_encoding hkeeps
  have hlength := length_encoding hencoding
  obtain ⟨index, place, hfound, hsize⟩ := hlive.locate? hpos hfits
  rw [← hlength] at hsize
  have hroom := hlive.le_room
  refine ⟨memory.write (displaced address offset) bytes, ?_, ?_, ?_, ?_⟩
  · have hinside : 0 ≤ (offset : Int) ∧ (offset : Int) < length ∧ address ≠ 0 ∧
        roomNeeded format scalar ≤ length - (offset : Int).toNat :=
      ⟨by omega, by omega, hlive.ne_zero, by omega⟩
    simp only [set?, if_pos hinside, hencoding, Option.map_some]
  · obtain ⟨rest, hread⟩ := read_write_same hfound hsize
    have hinside : 0 ≤ (offset : Int) ∧ (offset : Int) < length ∧
        (offset : Int).toNat ≤ min length (memory.room address) := by omega
    have hroom : roomNeeded format scalar ≤
        min length (memory.room address) - (offset : Int).toNat := by omega
    have hreach := roomNeeded_le_reach hroom
    rw [← hlength] at hreach
    simp only [get?, room_write, if_pos hinside, scalarAt, hread]
    rw [List.take_append, List.take_of_length_le hreach]
    exact hdecode _
  · rw [← hlength]
    exact fun other hapart => byte?_write hfound hsize hapart
  · rw [← hlength]
    exact fun view form place hapart => get?_write hfound hsize view place hapart

/-- An int with more bits than its format has room for, at an odd place in a block of sixteen bytes. -/
theorem set_get_reduced :
    let memory := (Memory.empty.allocate (List.replicate 16 7)).2
    ∃ after, (View.sized (base 0) 16).set? memory .int16 3 (.int 0x1fffe) = some after ∧
      (View.sized (base 0) 16).get? after .int16 3 = some (.int (-2)) ∧
      after.byte? (base 0) = memory.byte? (base 0) := by
  intro memory
  have hlive : memory.Live (base 0) 16 := ⟨0, 0, by decide +kernel, by decide +kernel, by decide⟩
  have hkeeps : Format.Keeps .int16 (.int 0x1fffe) (.int (-2)) := .int rfl
  have hfits : 3 + roomNeeded .int16 (.int 0x1fffe) ≤ 16 := by decide
  obtain ⟨after, hset, hget, hbytes, -⟩ := set_get hlive hkeeps hfits
  exact ⟨after, hset, hget, hbytes _ (.inl (by decide +kernel))⟩

end View

end ObjectModel
