import ObjectModel.Proofs.Laws.Programs
import ObjectModel.Proofs.Memory.Access

/-!
# Accesses to a region

A region of live memory answers a reading exactly when it fits, and takes a scalar of the right sort
exactly when there is room for it. What is read depends on no byte outside the region, and no byte
outside of it is written. A store that a region declines leaves everything as it was when the arguments
of the store were understood (`fits_iff_accepted`).
-/

namespace ObjectModel

open Memory

/-- The format is one for scalars of this sort. -/
def Format.Suits : Format → Scalar → Prop
  | .char, .char _ | .float, .float _ | .double, .float _ | .text, .bytes _ | .pointer, .address _ => True
  | .char, _ | .float, _ | .double, _ | .text, _ | .pointer, _ => False
  | _, .int _ => True
  | _, _ => False

-- ---------------------------------------------------------------------------
-- Bytes of a region
-- ---------------------------------------------------------------------------

namespace Memory

variable {memory other : Memory} {address : Address} {length offset : Nat}

theorem toNat_further (h : memory.locate? address = some (index, place)) (hlane : place + offset < lane) :
    (View.displaced address offset).toNat = address.toNat + offset := by
  obtain ⟨hstart, -⟩ := locate?_eq_some_iff.mp h
  obtain ⟨hend, -⟩ := locate?_eq_some_iff.mp (locate?_further h hlane)
  omega

theorem Live.toNat_displaced (h : memory.Live address length) (hin : offset < length) :
    (View.displaced address offset).toNat = address.toNat + offset := by
  obtain ⟨index, place, hfound, -, hlane⟩ := h
  exact toNat_further hfound (by omega)

theorem Live.part {count : Nat} (h : memory.Live address length) (hin : offset < length)
    (hfits : offset + count ≤ length) : memory.Live (View.displaced address offset) count := by
  obtain ⟨index, place, hfound, hsize, hlane⟩ := h
  exact ⟨index, place + offset, locate?_further hfound (by omega), by omega, by omega⟩

theorem Live.length_read (h : memory.Live address length) :
    (memory.read address length).length = length := by
  obtain ⟨index, place, hfound, hsize, -⟩ := h
  have hlist : (memory.block index).data.toList.length = (memory.block index).size := by simp
  rw [read_of_locate? length hfound, Bytes.part_eq, List.length_take, List.length_drop]
  omega

theorem Live.read_part {count : Nat} (h : memory.Live address length) (hin : offset < length)
    (hfits : offset + count ≤ length) :
    memory.read (View.displaced address offset) count =
      ((memory.read address length).drop offset).take count := by
  obtain ⟨index, place, hfound, hsize, hlane⟩ := h
  have hpart : memory.locate? (View.displaced address offset) = some (index, place + offset) :=
    locate?_further hfound (by omega)
  rw [read_of_locate? count hpart, read_of_locate? length hfound, Bytes.part_eq, Bytes.part_eq,
    List.drop_take, List.take_take, List.drop_drop]
  congr 1
  omega

theorem Live.getElem?_read (h : memory.Live address length) (hin : offset < length) :
    (memory.read address length)[offset]? = memory.byte? (View.displaced address offset) := by
  obtain ⟨index, place, hfound, hsize, hlane⟩ := h
  have hplace : memory.locate? (View.displaced address offset) = some (index, place + offset) :=
    locate?_further hfound (by omega)
  simp only [byte?, hplace, Option.bind_some, read_of_locate? length hfound, Bytes.part_eq,
    List.getElem?_take, List.getElem?_drop, if_pos hin]

/-- The bytes of a region are all that there is to it. -/
theorem Live.congr (h : memory.Live address length) (hlength : 0 < length)
    (hbytes : ∀ place, ¬ Apart place 1 address length → other.byte? place = memory.byte? place) :
    other.Live address length ∧ other.read address length = memory.read address length := by
  have hbyte (i : Nat) (hi : i < length) :
      other.byte? (View.displaced address i) = (memory.read address length)[i]? := by
    rw [h.getElem?_read hi]
    refine hbytes _ ?_
    have := h.toNat_displaced hi
    unfold Apart
    omega
  have hread := h.length_read
  have hlive : other.Live address length := by
    obtain ⟨index, place, hfound, hsize, hlane⟩ := h
    obtain ⟨haddress, hplace, -⟩ := locate?_eq_some_iff.mp hfound
    have hlast := hbyte (length - 1) (by omega)
    rw [List.getElem?_eq_getElem (by omega)] at hlast
    obtain ⟨⟨index', place'⟩, hfound', hget⟩ := Option.bind_eq_some_iff.mp hlast
    obtain ⟨hend', hplace', hindex⟩ := locate?_eq_some_iff.mp hfound'
    have hend : (View.displaced address (length - 1 : Nat)).toNat = address.toNat + (length - 1) :=
      toNat_further hfound (by omega)
    obtain ⟨rfl, rfl⟩ : index' = index ∧ place' = place + (length - 1) := by
      simp only [lane_eq, firstLane_eq] at *
      omega
    obtain ⟨hsize', -⟩ := List.getElem?_eq_some_iff.mp hget
    simp only [Array.length_toList, ByteArray.size_data] at hsize'
    exact ⟨index', place, locate?_eq_some_iff.mpr ⟨haddress, hplace, hindex⟩, by omega, hlane⟩
  refine ⟨hlive, List.ext_getElem? fun i => ?_⟩
  by_cases hi : i < length
  · rw [hlive.getElem?_read hi, hbyte i hi]
  · rw [List.getElem?_eq_none (by rw [hlive.length_read]; omega),
      List.getElem?_eq_none (by omega)]

end Memory

-- ---------------------------------------------------------------------------
-- Readings and writings
-- ---------------------------------------------------------------------------

namespace View

variable {memory other after : Memory} {address : Address} {length : Nat} {format : Format}
  {scalar : Scalar} {offset : Int}

theorem decodeHead_isSome (bytes : Bytes) :
    (decodeHead format bytes).isSome ↔ ∀ width ∈ format.width?, width ≤ bytes.length := by
  unfold decodeHead Format.width?
  cases format.fixed? with
  | none => simp
  | some fixed =>
    simp only [Option.map_some, Option.mem_some_iff, forall_eq']
    split <;> simp_all

theorem decodeHead_take (bytes : Bytes) :
    decodeHead format (bytes.take ((format.width?.map (min · bytes.length)).getD bytes.length)) =
      decodeHead format bytes := by
  unfold decodeHead Format.width?
  cases format.fixed? with
  | none => simp
  | some fixed =>
    obtain ⟨width, layout⟩ := fixed
    simp only [Option.map_some, Option.getD_some, List.length_take, List.take_take]
    by_cases hwidth : width ≤ bytes.length
    · rw [if_pos hwidth, if_pos (by omega), Nat.min_eq_left hwidth, Nat.min_self]
    · rw [if_neg hwidth, if_neg (by omega)]

theorem encoding_isSome : (encoding format scalar).isSome ↔ format.Suits scalar := by
  cases format <;> cases scalar <;>
    simp [encoding, Format.fixed?, Format.Layout.encode?, Format.Suits]

theorem reach_le (format : Format) (room : Nat) :
    (format.width?.map (min · room)).getD room ≤ room := by
  cases format.width? with
  | none => exact Nat.le_refl room
  | some width => exact Nat.min_le_right width room

/-- What is read from a region is what the rest of its bytes stand for. -/
theorem get?_region (hthere : length ≠ 0 → memory.Live address length) :
    (sized address length).get? memory format offset =
      if 0 ≤ offset ∧ offset < length then
        decodeHead format ((memory.read address length).drop offset.toNat)
      else none := by
  by_cases hin : 0 ≤ offset ∧ offset < length
  · obtain ⟨place, rfl⟩ := Int.eq_ofNat_of_zero_le hin.1
    have hlive := hthere (by omega)
    have hroom := hlive.le_room
    have hrest : ((memory.read address length).drop place).length = length - place := by
      rw [List.length_drop, hlive.length_read]
    have hreach := reach_le format (length - place)
    simp only [get?, Nat.min_eq_left hroom]
    rw [if_pos hin, if_pos ⟨hin.1, hin.2, by omega⟩, scalarAt, Int.toNat_natCast,
      hlive.read_part (by omega) (by omega), ← hrest, decodeHead_take]
  · simp only [get?]
    rw [if_neg hin, if_neg fun h => hin ⟨h.1, h.2.1⟩]

theorem get?_region_isSome (hthere : length ≠ 0 → memory.Live address length) :
    ((sized address length).get? memory format offset).isSome ↔
      0 ≤ offset ∧ offset < length ∧ ∀ width ∈ format.width?, offset + width ≤ length := by
  rw [get?_region hthere]
  split
  case isTrue hin =>
    rw [decodeHead_isSome, List.length_drop, (hthere (by omega)).length_read]
    refine ⟨fun h => ⟨hin.1, hin.2, fun width hwidth => ?_⟩, fun h width hwidth => ?_⟩
    · have := h width hwidth
      omega
    · have := h.2.2 width hwidth
      omega
  case isFalse hout => simpa using fun h h' => absurd ⟨h, h'⟩ hout

theorem get?_region_congr (hthere : length ≠ 0 → memory.Live address length)
    (hbytes : ∀ place, ¬ Apart place 1 address length → other.byte? place = memory.byte? place) :
    (sized address length).get? other format offset = (sized address length).get? memory format offset := by
  by_cases hlength : length = 0
  · subst hlength
    rw [get?_region fun h => absurd rfl h, get?_region hthere, if_neg (by omega), if_neg (by omega)]
  · obtain ⟨hlive, hread⟩ := (hthere hlength).congr (Nat.pos_of_ne_zero hlength) hbytes
    rw [get?_region fun _ => hlive, get?_region hthere, hread]

theorem set?_region_isSome (haddress : address ≠ 0) :
    ((sized address length).set? memory format offset scalar).isSome ↔
      format.Suits scalar ∧ 0 ≤ offset ∧ offset < length ∧
        offset + roomNeeded format scalar ≤ length := by
  rw [← encoding_isSome]
  simp only [set?]
  split
  case isTrue hin =>
    rw [Option.isSome_map]
    refine ⟨fun h => ⟨h, hin.1, hin.2.1, by omega⟩, fun h => h.1⟩
  case isFalse hout =>
    refine ⟨fun h => by simp at h, ?_⟩
    rintro ⟨-, hlow, hhigh, hroom⟩
    exact absurd ⟨hlow, hhigh, haddress, by omega⟩ hout

theorem roomNeeded_pos_of_encoding (h : encoding format scalar = some bytes) : 0 < bytes.length := by
  rw [length_encoding h]
  cases hfixed : format.fixed? with
  | some fixed =>
    obtain ⟨width, layout⟩ := fixed
    rw [roomNeeded_fixed hfixed]
    exact width_pos hfixed
  | none =>
    cases scalar with
    | bytes text => simp [roomNeeded, Format.width?, hfixed]
    | _ => simp [encoding, hfixed] at h

/-- What a region takes is written inside of it. -/
theorem exists_write_region (h : (sized address length).set? memory format offset scalar = some after) :
    ∃ (place : Nat) (bytes : Bytes), offset = place ∧ 0 < bytes.length ∧
      bytes.length = roomNeeded format scalar ∧ place + bytes.length ≤ length ∧
      after = memory.write (displaced address place) bytes := by
  simp only [set?] at h
  split at h
  case isTrue hin =>
    obtain ⟨bytes, hencoding, rfl⟩ := Option.map_eq_some_iff.mp h
    obtain ⟨place, rfl⟩ := Int.eq_ofNat_of_zero_le hin.1
    have hlength := length_encoding hencoding
    exact ⟨place, bytes, rfl, roomNeeded_pos_of_encoding hencoding, hlength, by omega, rfl⟩
  case isFalse => cases h

theorem byte?_set?_region (hthere : length ≠ 0 → memory.Live address length)
    (h : (sized address length).set? memory format offset scalar = some after) {place : Address}
    (hplace : Apart place 1 address length) : after.byte? place = memory.byte? place := by
  obtain ⟨start, bytes, -, hpos, -, hfits, rfl⟩ := exists_write_region h
  have hlive := hthere (by omega)
  obtain ⟨index, spot, hfound, hsize⟩ := hlive.locate? hpos hfits
  have hstart : (displaced address start).toNat = address.toNat + start :=
    hlive.toNat_displaced (by omega)
  exact byte?_write hfound hsize (by unfold Apart at hplace ⊢; omega)

end View

-- ---------------------------------------------------------------------------
-- Stores by programs
-- ---------------------------------------------------------------------------

namespace Behavior.Buffers

open ObjectModel.Action

variable {machine : Machine} {args : List Ref} {s u : State}

/-- A store whose arguments are understood. -/
structure Request where
  target : Ref
  value : Ref
  view : View
  format : Format
  offset : Int64
  scalar : Scalar

/-- What the arguments of a store ask for, if they name a format. -/
def requested (machine : Machine) (args : List Ref) : Action (Option Request) := do
  let target ← argument args 0
  let (view, format, offset) ← access machine args 3
  match format with
  | none => return none
  | some format =>
    let value ← argument args 2
    let scalar ← holding [target, value] (scalarOf machine.toDispatcher format value)
    return some { target, value, view, format, offset, scalar }

def Request.memory? (request : Request) (memory : Memory) : Option Memory :=
  request.view.set? memory request.format request.offset.toInt request.scalar

/-- Writes what is asked for, if it fits. -/
def deposit (request : Request) : Action Ref := do
  match request.memory? (← get).memory with
  | none => nothing
  | some memory =>
    modify fun state => { state with memory }
    if request.format = .pointer ∧ request.value ≠ request.target ∧ (← kind request.value) = .buffer then
      anchor request.target request.value
    nothing

theorem write_eq (machine : Machine) (args : List Ref) : write machine args = (do
    match ← requested machine args with
    | none => nothing
    | some request => deposit request) := by
  unfold write requested
  simp only [bind_assoc]
  refine bind_congr fun target => bind_congr fun access => ?_
  obtain ⟨view, format, offset⟩ := access
  cases format with
  | none => rfl
  | some format =>
    simp only [bind_assoc, pure_bind]
    rfl

theorem run_write (h : (requested machine args).run s = .ok request u) :
    (write machine args).run s = (match request with
      | none => nothing
      | some request => deposit request).run u := by
  rw [write_eq, EStateM.run_bind, h]

theorem run_deposit_declined (h : request.memory? u.memory = none) :
    (deposit request).run u = .ok u.nothing u := by
  unfold deposit
  simp [h]

theorem run_anchor (object anchored : Ref) (s : State) :
    ∃ t, (anchor object anchored).run s = .ok () t ∧ t.memory = s.memory ∧ t.nothing = s.nothing := by
  unfold anchor
  rw [EStateM.run_bind, run_payload]
  dsimp only
  split
  · exact ⟨_, rfl, rfl, rfl⟩
  · exact ⟨s, rfl, rfl, rfl⟩

theorem run_deposit_accepted (h : request.memory? u.memory = some after) :
    ∃ w, (deposit request).run u = .ok u.nothing w ∧ w.memory = after := by
  unfold deposit
  rw [EStateM.run_bind, EStateM.run_get]
  dsimp only
  rw [h]
  rw [EStateM.run_bind, EStateM.run_modify]
  dsimp only
  rw [EStateM.run_bind, run_kind]
  dsimp only
  split
  · obtain ⟨w, hrun, hmemory, hnothing⟩ :=
      run_anchor request.target request.value { u with memory := after }
    refine ⟨w, ?_, hmemory⟩
    rw [EStateM.run_bind, hrun]
    exact congrArg (EStateM.Result.ok · w) hnothing
  · exact ⟨_, rfl, rfl⟩

theorem suits_scalarOf {run : Dispatcher} (h : (scalarOf run format value).run s = .ok scalar u) :
    format.Suits scalar := by
  cases format with
  | pointer =>
    obtain ⟨payload, t, -, h⟩ := exists_run_of_bind h
    split at h
    · cases h
      trivial
    · obtain ⟨n, w, -, h⟩ := exists_run_of_bind h
      cases h
      trivial
  | _ =>
    obtain ⟨converted, t, -, h⟩ := exists_run_of_bind h
    cases h
    trivial

theorem run_of_holding {action : Action α} (h : (holding objects action).run s = .ok a u) :
    ∃ t, action.run { s with held := objects :: s.held } = .ok a t := by
  rw [run_holding] at h
  split at h
  · rename_i hrun
    cases h
    exact ⟨_, hrun⟩
  · cases h
  · cases h

theorem suits_requested (h : (requested machine args).run s = .ok (some request) u) :
    request.format.Suits request.scalar := by
  obtain ⟨target, t, -, h⟩ := exists_run_of_bind h
  obtain ⟨⟨view, format, offset⟩, t, -, h⟩ := exists_run_of_bind h
  cases format with
  | none => cases h
  | some format =>
    obtain ⟨value, t, -, h⟩ := exists_run_of_bind h
    obtain ⟨scalar, t, hscalar, h⟩ := exists_run_of_bind h
    cases h
    obtain ⟨w, hscalar⟩ := run_of_holding hscalar
    exact suits_scalarOf hscalar

end Behavior.Buffers

open Behavior.Buffers

variable {memory : Memory} {address : Address} {length : Nat}

/-- There is room for the scalar at the offset of a region. -/
def View.Fits (format : Format) (scalar : Scalar) (offset : Int) (length : Nat) : Prop :=
  0 ≤ offset ∧ offset < length ∧ offset + View.roomNeeded format scalar ≤ length

/-- A region of live memory is read and written exactly where this fits. What is read depends on no byte
outside of the region, and none is written. A program's store does nothing but write, and anchor what
it stored the address of; one that does not fit leaves everything as it was when the arguments of the
store were understood. -/
theorem fits_iff_accepted (haddress : address ≠ 0) (hthere : length ≠ 0 → memory.Live address length)
    (format : Format) (offset : Int64) (scalar : Scalar) :
    (((View.sized address length).get? memory format offset.toInt).isSome ↔
      0 ≤ offset.toInt ∧ offset.toInt < length ∧
        ∀ width ∈ format.width?, offset.toInt + width ≤ length) ∧
    (((View.sized address length).set? memory format offset.toInt scalar).isSome ↔
      format.Suits scalar ∧ View.Fits format scalar offset.toInt length) ∧
    (∀ other : Memory,
      (∀ place, ¬ Apart place 1 address length → other.byte? place = memory.byte? place) →
      (View.sized address length).get? other format offset.toInt =
        (View.sized address length).get? memory format offset.toInt) ∧
    (∀ after, (View.sized address length).set? memory format offset.toInt scalar = some after →
      ∀ place, Apart place 1 address length → after.byte? place = memory.byte? place) ∧
    ∀ machine args s u request, (requested machine args).run s = .ok (some request) u →
      request.view = .sized address length →
      (View.Fits request.format request.scalar request.offset.toInt length →
        ∃ w, (write machine args).run s = .ok u.nothing w ∧
          (View.sized address length).set? u.memory request.format request.offset.toInt
            request.scalar = some w.memory) ∧
      (¬ View.Fits request.format request.scalar request.offset.toInt length →
        (write machine args).run s = .ok u.nothing u) := by
  refine ⟨View.get?_region_isSome hthere, View.set?_region_isSome haddress,
    fun other hbytes => View.get?_region_congr hthere hbytes,
    fun after hset place hplace => View.byte?_set?_region hthere hset hplace,
    fun machine args s u request hrequested hview => ?_⟩
  have hsuits := suits_requested hrequested
  have hisSome : (request.memory? u.memory).isSome ↔
      request.format.Suits request.scalar ∧
        View.Fits request.format request.scalar request.offset.toInt length := by
    unfold Request.memory?
    rw [hview]
    exact View.set?_region_isSome haddress
  rw [run_write hrequested]
  refine ⟨fun hfits => ?_, fun hfits => ?_⟩
  · obtain ⟨after, hafter⟩ := Option.isSome_iff_exists.mp (hisSome.mpr ⟨hsuits, hfits⟩)
    obtain ⟨w, hrun, hmemory⟩ := run_deposit_accepted hafter
    refine ⟨w, hrun, ?_⟩
    rw [hmemory, ← hafter, Request.memory?, hview]
  · refine run_deposit_declined (Option.not_isSome_iff_eq_none.mp fun h => ?_)
    exact hfits (hisSome.mp h).2

def State.withWindow : State :=
  { Globals.bare {} .discard {} with
    heap := ⟨#[.singlet "None", .map [], .map [],
      .buffer { view := .sized (base 0) 4, ownership := .owned }, .buffer { view := .sized (base 0) 4 },
      .int Format.pointer.code, .int 1]⟩
    memory := (Memory.empty.allocate (Bytes.ofText "ABCD")).2 }

/-- An address does not fit into four bytes, so that the store of one anchors nothing. -/
theorem fits_iff_accepted_pointer :
    (View.sized (base 0) 4).set? State.withWindow.memory .pointer 0 (.address (base 0)) = none ∧
    (write (machine .steady 1) [⟨3⟩, ⟨5⟩, ⟨4⟩]).run .withWindow = .ok ⟨0⟩ .withWindow := by
  have hlive : State.withWindow.memory.Live (base 0) 4 :=
    ⟨0, 0, by decide +kernel, by decide +kernel, by decide⟩
  obtain ⟨-, hset, -, -, hrun⟩ :=
    fits_iff_accepted (by decide +kernel) (fun _ => hlive) .pointer 0 (.address (base 0))
  have hfits : ¬ View.Fits .pointer (.address (base 0)) (0 : Int64).toInt 4 := by
    rintro ⟨-, -, hroom⟩
    exact absurd hroom (by decide)
  refine ⟨Option.not_isSome_iff_eq_none.mp fun h => hfits (hset.mp h).2, ?_⟩
  exact (hrun (machine .steady 1) [⟨3⟩, ⟨5⟩, ⟨4⟩] .withWindow .withWindow
    ⟨⟨3⟩, ⟨4⟩, .sized (base 0) 4, .pointer, 0, .address (base 0)⟩ rfl rfl).2 hfits

end ObjectModel
