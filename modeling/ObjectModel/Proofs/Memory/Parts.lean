import ObjectModel.Proofs.Laws.Endings
import ObjectModel.Proofs.Memory.Regions

/-!
# Parts of views

The rest of a view of live memory from a place on answers every reading, every writing and every further
part as the whole does that many bytes further on (`View.isRest_of_from?`). An index with an int makes
this rest, and gives no value where the place is not in the view (`run_index_int`).
-/

namespace ObjectModel

open Memory

namespace View

variable {memory : Memory} {address : Address} {length k : Nat} {offset : Int} {format : Format}

/-- The part answers as the whole does `k` bytes further on. -/
def IsRest (whole part : View) (k : Int) (memory : Memory) : Prop :=
  ∀ offset, 0 ≤ offset →
    (∀ format, part.get? memory format offset = whole.get? memory format (k + offset)) ∧
    (∀ format scalar, part.set? memory format offset scalar =
      whole.set? memory format (k + offset) scalar) ∧
    part.from? offset = whole.from? (k + offset)

theorem from?_sized (address : Address) (length k : Nat) : (sized address length).from? k =
    if k ≤ length then some (sized (displaced address k) (length - k)) else none := by
  simp only [from?, Int.toNat_natCast]
  by_cases hk : k ≤ length
  · rw [if_pos hk, if_pos ⟨by omega, by omega⟩]
  · rw [if_neg hk, if_neg (by omega)]

theorem there_rest (hthere : length ≠ 0 → memory.Live address length) (hrest : length - k ≠ 0) :
    memory.Live (displaced address k) (length - k) :=
  (hthere (by omega)).part (by omega) (by omega)

theorem get?_rest (hthere : length ≠ 0 → memory.Live address length) (hoffset : 0 ≤ offset) :
    (sized (displaced address k) (length - k)).get? memory format offset =
      (sized address length).get? memory format (k + offset) := by
  rw [get?_region (there_rest hthere), get?_region hthere]
  by_cases hin : offset < (length - k : Nat)
  · have hread : memory.read (displaced address k) (length - k) =
        (memory.read address length).drop k := by
      have hlive := hthere (by omega)
      rw [hlive.read_part (by omega) (by omega), List.take_of_length_le]
      rw [List.length_drop, hlive.length_read]
    rw [if_pos ⟨hoffset, hin⟩, if_pos (by omega), hread, List.drop_drop]
    congr 2
    omega
  · rw [if_neg (by omega), if_neg (by omega)]

theorem set?_rest (hthere : length ≠ 0 → memory.Live address length) (hoffset : 0 ≤ offset)
    (scalar : Scalar) :
    (sized (displaced address k) (length - k)).set? memory format offset scalar =
      (sized address length).set? memory format (k + offset) scalar := by
  obtain ⟨place, rfl⟩ := Int.eq_ofNat_of_zero_le hoffset
  have hplace : (k + place : Int) = (k + place : Nat) := by omega
  simp only [set?, displaced_displaced, hplace, Int.toNat_natCast]
  by_cases hin : place < length - k
  · have hwhole := (hthere (by omega)).ne_zero
    have hpart := (there_rest hthere (k := k) (by omega)).ne_zero
    refine if_congr ?_ rfl rfl
    rw [and_iff_right hwhole, and_iff_right hpart]
    omega
  · rw [if_neg (by omega), if_neg (by omega)]

theorem from?_rest (hk : k ≤ length) (hoffset : 0 ≤ offset) :
    (sized (displaced address k) (length - k)).from? offset =
      (sized address length).from? (k + offset) := by
  obtain ⟨place, rfl⟩ := Int.eq_ofNat_of_zero_le hoffset
  have hplace : (k + place : Int) = (k + place : Nat) := by omega
  rw [hplace, from?_sized, from?_sized, displaced_displaced, Nat.sub_sub]
  refine if_congr (by omega) rfl rfl

/-- What a view of live memory is cut down to is its rest. -/
theorem isRest_of_from? {k : Int} (hthere : length ≠ 0 → memory.Live address length)
    (h : (sized address length).from? k = some part) : (sized address length).IsRest part k memory := by
  simp only [from?] at h
  split at h
  case isTrue hin =>
    obtain ⟨start, rfl⟩ := Int.eq_ofNat_of_zero_le hin.1
    cases h
    intro offset hoffset
    exact ⟨fun format => get?_rest hthere hoffset, fun format => set?_rest hthere hoffset,
      from?_rest (by omega) hoffset⟩
  case isFalse => cases h

theorem from?_eq_none_iff (address : Address) (length : Nat) (k : Int) :
    (sized address length).from? k = none ↔ k < 0 ∨ length < k := by
  simp only [from?]
  split
  · exact ⟨nofun, by omega⟩
  · exact ⟨fun _ => by omega, fun _ => rfl⟩

end View

open ObjectModel.Action

theorem run_index_int {s : State} {parent key : Ref} {buffer : Buffer} {k : Int64} (host : Host)
    (rounds : Nat) (hparent : s.payload parent = .buffer buffer) (hkey : s.payload key = .int k) :
    ((machine host (rounds + 1)).dispatch .index [parent, key]).run s =
      match buffer.view.from? k.toInt with
      | some part => .ok s.heap.next (s.made (.buffer { view := part, anchors := [parent] }))
      | none => .ok s.nothing s := by
  have hkind : s.kind parent = .buffer := State.kind_of_payload hparent
  have hname : s.nameBytes? key = none := by simp [State.nameBytes?, hkey]
  rw [Dispatcher.run_dispatch, hkind]
  show (Behavior.Buffers.index (machine host rounds) [parent, key]).run s = _
  have hview : (Behavior.Buffers.viewOf parent).run s = .ok buffer.view s := by
    simp [Behavior.Buffers.viewOf, hparent]
  have hoffset : ((machine host rounds).toInt key).run s = .ok k s := by
    simp [Dispatcher.toInt, hkey]
  unfold Behavior.Buffers.index
  cases hpart : buffer.view.from? k.toInt with
  | none => simp [hname, hview, hoffset, hpart]
  | some part => simp [hname, hview, hoffset, hpart, Behavior.Buffers.createBorrowed]

end ObjectModel
