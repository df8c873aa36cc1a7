import Mathlib.Logic.Equiv.Basic
import Mathlib.Logic.Relation
import ObjectModel.Proofs.Laws.Machines
import ObjectModel.State.References

/-!
# What keeps the memory of a view

A view of known size is backed when it lies in a block of which the owner is the view's own buffer, or
is reached from it by way of anchors. Backing survives what leaves buffers, their anchors and the sizes
of blocks as they are (`Carries.backed`). Exchanging two payloads moves the owner of a block to another
object, but not the anchors that name it: the views that are backed afterwards are those that reach
their block when anchors to one of the two objects are read as anchors to the other
(`backed_exchanged`).
-/

namespace ObjectModel

open Relation (ReflTransGen)
open ObjectModel.Action (payload_made_next payload_made_other payload_next payload_stored_other payload_stored_same)

namespace State

structure OwnsBlock (s : State) (object : Ref) (index : Nat) : Prop where
  owns : (s.payload object).owns = true
  window : (s.payload object).window? = some (Memory.base index, (s.memory.block index).size)

def Inside (s : State) (address : Address) (length index : Nat) : Prop :=
  ∃ offset : Nat, address = View.displaced (Memory.base index) offset ∧
    offset + length ≤ (s.memory.block index).size

/-- The object is anchored to the other, where its anchors are read through `via`. -/
def Anchored (s : State) (via : Ref → Ref) (object other : Ref) : Prop :=
  ∃ anchor ∈ (s.payload object).anchors, via anchor = other

/-- What the object looks at lies in a block whose owner is reached through anchors. -/
def BackedVia (s : State) (via : Ref → Ref) (object : Ref) : Prop :=
  ∀ address length, (s.payload object).window? = some (address, length) → length ≠ 0 →
    ∃ keeper index, ReflTransGen (s.Anchored via) object keeper ∧ s.OwnsBlock keeper index ∧
      s.Inside address length index

/-- What the object looks at is kept by the object or by what it is anchored to. -/
def Backed (s : State) (object : Ref) : Prop := s.BackedVia id object

def Sound (s : State) : Prop := ∀ object, s.Backed object

/-- What live objects look at lies in blocks of live owners that they keep by their anchors. -/
def ViewsKept (s : State) : Prop :=
  ∀ object, ¬ s.Released object → ∀ address length,
    (s.payload object).window? = some (address, length) → length ≠ 0 →
      ∃ keeper index, ¬ s.Released keeper ∧ ReflTransGen (s.Anchored id) object keeper ∧
        s.OwnsBlock keeper index ∧ s.Inside address length index

end State

-- ---------------------------------------------------------------------------
-- Addresses
-- ---------------------------------------------------------------------------

namespace View

theorem toNat_displaced (address : Address) (offset : Nat) :
    (displaced address offset).toNat = (address.toNat + offset) % UInt64.size := by
  unfold displaced UInt64.ofInt
  rw [UInt64.toNat_ofNat', UInt64.size]
  omega

theorem displaced_displaced (address : Address) (first second : Nat) :
    displaced (displaced address first) second = displaced address (first + second : Nat) := by
  refine UInt64.toNat_inj.mp ?_
  rw [toNat_displaced, toNat_displaced, toNat_displaced, UInt64.size]
  omega

theorem displaced_zero (address : Address) : displaced address (0 : Nat) = address := by
  refine UInt64.toNat_inj.mp ?_
  rw [toNat_displaced]
  exact Nat.mod_eq_of_lt address.toNat_lt

end View

namespace Memory

variable {memory : Memory} {bytes : Bytes}

theorem lt_of_size_ne_zero (h : (memory.block index).size ≠ 0) : index < memory.blocks.size := by
  by_contra hout
  simp [block, Nat.le_of_not_lt hout] at h

theorem size_block_le (memory : Memory) (index : Nat) : (memory.block index).size ≤ lane := by
  by_cases hin : index < memory.blocks.size
  · simpa [block, hin] using memory.size_le _ (Array.getElem_mem hin)
  · simp [block, Nat.le_of_not_lt hin]

theorem allocate_of_fits (hfits : memory.Fits bytes.length) (hne : bytes ≠ []) :
    memory.allocate bytes = (base memory.blocks.size, memory.push bytes hfits hne) :=
  dif_pos ⟨hfits, hne⟩

theorem allocate_nil (memory : Memory) : memory.allocate [] = (emptyBlock, memory) :=
  dif_neg fun h => h.2 rfl

theorem count_allocate_le (memory : Memory) (bytes : Bytes) :
    (memory.allocate bytes).2.blocks.size ≤ memory.blocks.size + 1 := by
  unfold allocate
  split <;> simp [push]

theorem block_push_old (hfits : memory.Fits bytes.length) (hne : bytes ≠ [])
    (hin : index < memory.blocks.size) : (memory.push bytes hfits hne).block index = memory.block index := by
  simp [push, block, Array.getElem?_push, Nat.ne_of_lt hin]

theorem block_allocate_old (bytes : Bytes) (hin : index < memory.blocks.size) :
    (memory.allocate bytes).2.block index = memory.block index := by
  unfold allocate
  split
  case isTrue h => exact block_push_old h.1 h.2 hin
  case isFalse => rfl

theorem block_push_new (hfits : memory.Fits bytes.length) (hne : bytes ≠ []) :
    (memory.push bytes hfits hne).block memory.blocks.size = bytes.toByteArray := by
  simp [push, block]

theorem read_of_locate? {address : Address} (length : Nat)
    (h : memory.locate? address = some (index, offset)) :
    memory.read address length = Bytes.part (memory.block index) offset length := by
  unfold Memory.read
  rw [h]

theorem toNat_base (hin : index < lanes) : (base index).toNat = (index + firstLane) * lane := by
  rw [lanes_eq] at hin
  rw [base, UInt64.toNat_ofNat', lane_eq, firstLane_eq]
  omega

theorem locate?_displaced (hin : index < memory.blocks.size) (hoffset : offset < lane) :
    memory.locate? (View.displaced (base index) offset) = some (index, offset) := by
  have hlane : index < lanes := Nat.lt_of_lt_of_le hin memory.count_le
  have haddress := View.toNat_displaced (base index) offset
  rw [toNat_base hlane] at haddress
  rw [lanes_eq] at hlane
  simp only [lane_eq, firstLane_eq, UInt64.size] at haddress hoffset
  have hdiv : (View.displaced (base index) offset).toNat / 68719476736 = index + 4096 := by omega
  have hmod : (View.displaced (base index) offset).toNat % 68719476736 = offset := by omega
  unfold locate?
  rw [lane_eq, firstLane_eq, hdiv, hmod, if_pos (by omega), Nat.add_sub_cancel]

end Memory

-- ---------------------------------------------------------------------------
-- Payloads of buffers
-- ---------------------------------------------------------------------------

namespace Payload

variable {payload old new : Payload}

theorem kind_of_anchor (h : anchor ∈ payload.anchors) : payload.kind = .buffer := by
  cases payload with
  | buffer => rfl
  | _ => cases h

theorem kind_of_owns (h : payload.owns = true) : payload.kind = .buffer := by
  cases payload with
  | buffer => rfl
  | _ => cases h

theorem kind_of_window (h : payload.window? = some window) : payload.kind = .buffer := by
  cases payload with
  | buffer => rfl
  | _ => cases h

theorem anchors_subset_references (payload : Payload) : payload.anchors ⊆ payload.references := by
  cases payload with
  | buffer made =>
    obtain ⟨view, ownership, anchors⟩ := made
    rcases ownership with _ | _ | ⟨held⟩ | ⟨position, container⟩
    · exact fun _ h => h
    · exact fun _ h => h
    · exact fun _ h => List.mem_cons_of_mem held h
    · exact fun _ h => h
  | _ => exact List.nil_subset _

end Payload

namespace State

variable {s t : State} {via : Ref → Ref}

theorem backedVia_of_kind (h : s.kind object ≠ .buffer) : s.BackedVia via object := by
  intro address length hwindow
  exact absurd (Payload.kind_of_window hwindow) h

-- ---------------------------------------------------------------------------
-- Released objects
-- ---------------------------------------------------------------------------

theorem contains_of_kind (h : s.kind object = .buffer) : s.heap.Contains object :=
  contains_of_kind_ne (by simp [h])

theorem Released.of_anchored (h : s.Anchored id object keeper) (hreleased : s.Released keeper) :
    s.Released object := by
  obtain ⟨anchor, hmem, rfl⟩ := h
  cases hreleased with
  | intro _ holders =>
    have hmade := contains_of_kind (Payload.kind_of_anchor hmem)
    exact holders object hmade (Payload.anchors_subset_references _ hmem)

theorem live_of_anchored (h : ReflTransGen (s.Anchored id) object keeper)
    (hlive : ¬ s.Released object) : ¬ s.Released keeper := by
  induction h with
  | refl => exact hlive
  | tail _ hstep ih => exact fun hreleased => ih (hreleased.of_anchored hstep)

theorem viewsKept_iff : s.ViewsKept ↔ ∀ object, ¬ s.Released object → s.Backed object := by
  constructor
  · intro h object hlive address length hwindow hlength
    obtain ⟨keeper, index, -, hkeeper⟩ := h object hlive address length hwindow hlength
    exact ⟨keeper, index, hkeeper⟩
  · intro h object hlive address length hwindow hlength
    obtain ⟨keeper, index, hpath, hkeeper⟩ := h object hlive address length hwindow hlength
    exact ⟨keeper, index, live_of_anchored hpath hlive, hpath, hkeeper⟩

theorem Sound.viewsKept (h : s.Sound) : s.ViewsKept := viewsKept_iff.mpr fun object _ => h object

-- ---------------------------------------------------------------------------
-- What leaves views backed
-- ---------------------------------------------------------------------------

/-- The buffers of a state and its blocks are found again in a later one. -/
structure Carries (s t : State) : Prop where
  renews : ∀ object, s.kind object = .buffer → (s.payload object).Renews (t.payload object)
  sizes : ∀ index, (s.memory.block index).size ≠ 0 →
    (t.memory.block index).size = (s.memory.block index).size

theorem Inside.size_ne_zero (h : s.Inside address length index) (hlength : length ≠ 0) :
    (s.memory.block index).size ≠ 0 := by
  obtain ⟨offset, -, hle⟩ := h
  omega

namespace Carries

theorem anchored (h : Carries s t) (hs : s.Anchored id object other) : t.Anchored id object other := by
  obtain ⟨anchor, hmem, heq⟩ := hs
  exact ⟨anchor, (h.renews object (Payload.kind_of_anchor hmem)).anchors hmem, heq⟩

theorem ownsBlock (h : Carries s t) (hs : s.OwnsBlock keeper index)
    (hsize : (s.memory.block index).size ≠ 0) : t.OwnsBlock keeper index := by
  have hrenews := h.renews keeper (Payload.kind_of_owns hs.owns)
  refine ⟨hrenews.owns.trans hs.owns, ?_⟩
  rw [hrenews.window, hs.window, h.sizes index hsize]

theorem inside (h : Carries s t) (hs : s.Inside address length index)
    (hsize : (s.memory.block index).size ≠ 0) : t.Inside address length index := by
  obtain ⟨offset, haddress, hle⟩ := hs
  exact ⟨offset, haddress, by rwa [h.sizes index hsize]⟩

theorem backed (h : Carries s t) (hkind : s.kind object = .buffer) (hs : s.Backed object) :
    t.Backed object := by
  intro address length hwindow hlength
  rw [(h.renews object hkind).window] at hwindow
  obtain ⟨keeper, index, hpath, howner, hinside⟩ := hs address length hwindow hlength
  have hsize := hinside.size_ne_zero hlength
  have hpath := ReflTransGen.mono (fun _ _ hstep => h.anchored hstep) _ _ hpath
  exact ⟨keeper, index, hpath, h.ownsBlock howner hsize, h.inside hinside hsize⟩

/-- A state that carries another one on is sound when its new buffers are backed. -/
theorem sound (h : Carries s t) (hs : s.Sound)
    (hnew : ∀ object, s.kind object ≠ .buffer → t.Backed object) : t.Sound := by
  intro object
  by_cases hkind : s.kind object = .buffer
  · exact h.backed hkind (hs object)
  · exact hnew object hkind

end Carries

-- ---------------------------------------------------------------------------
-- Steps
-- ---------------------------------------------------------------------------

theorem payload_made_old {payload : Payload} (h : s.kind object = .buffer) :
    (s.made payload).payload object = s.payload object := by
  refine payload_made_other fun hnext => ?_
  rw [hnext, kind, payload_next] at h
  cases h

theorem payload_exchanged (ha : s.heap.Contains a) (hb : s.heap.Contains b) (object : Ref) :
    (s.exchanged a b).payload object = s.payload (Equiv.swap a b object) := by
  have hset : (s.stored a (s.payload b)).heap.Contains b := by
    simpa [Heap.Contains, Heap.set, Heap.size, stored] using hb
  show ((s.stored a (s.payload b)).stored b (s.payload a)).payload object = _
  by_cases hisb : object = b
  · rw [hisb, payload_stored_same hset, Equiv.swap_apply_right]
  · rw [payload_stored_other hisb]
    by_cases hisa : object = a
    · rw [hisa, payload_stored_same ha, Equiv.swap_apply_left]
    · rw [payload_stored_other hisa, Equiv.swap_apply_of_ne_of_ne hisa hisb]

/-- Nothing but the payloads decides what is backed, as long as blocks keep their sizes. -/
theorem Sound.of_agree (hs : s.Sound) (hheap : t.heap = s.heap)
    (hsizes : ∀ index, (t.memory.block index).size = (s.memory.block index).size) : t.Sound := by
  have hpayload (object : Ref) : t.payload object = s.payload object := by
    unfold payload
    rw [hheap]
  refine Carries.sound ⟨fun object _ => ?_, fun index _ => hsizes index⟩ hs fun object hkind => ?_
  · rw [hpayload]
    exact .refl _
  · refine backedVia_of_kind ?_
    unfold kind
    rw [hpayload]
    exact hkind

theorem carries_made (s : State) (payload : Payload) : s.Carries (s.made payload) := by
  refine ⟨fun object hkind => ?_, fun _ _ => rfl⟩
  rw [payload_made_old hkind]
  exact .refl _

theorem Sound.made {payload : Payload} (hs : s.Sound) (hnew : (s.made payload).Backed s.heap.next) :
    (s.made payload).Sound := by
  refine (carries_made s payload).sound hs fun object hkind => ?_
  by_cases hnext : object = s.heap.next
  · exact hnext ▸ hnew
  · refine backedVia_of_kind ?_
    unfold kind
    rw [payload_made_other hnext]
    exact hkind

theorem Sound.made_blind (hs : s.Sound) (payload : Payload) [hblind : payload.Blind] :
    (s.made payload).Sound := by
  refine hs.made fun address length hwindow hlength => ?_
  rw [payload_made_next] at hwindow
  exact absurd (hblind.window hwindow) hlength

theorem Sound.made_part (hs : s.Sound) (hparent : s.payload parent = .buffer buffer)
    (hview : buffer.view = .sized address length) (hle : start + size ≤ length) :
    (s.made (.buffer {
      view := .sized (View.displaced address start) size, anchors := [parent] })).Sound := by
  refine hs.made fun address' length' hwindow hlength => ?_
  rw [payload_made_next] at hwindow
  cases hwindow
  have hkind : s.kind parent = .buffer := by rw [kind, hparent]; rfl
  have hwhole : (s.payload parent).window? = some (address, length) := by
    rw [hparent]
    simp [Payload.window?, hview, View.length?, View.address]
  obtain ⟨keeper, index, hpath, howner, offset, haddress, hinside⟩ :=
    hs parent address length hwhole (by omega)
  have hcarry := carries_made s (.buffer {
    view := .sized (View.displaced address start) size, anchors := [parent] })
  have hsize : (s.memory.block index).size ≠ 0 := by omega
  have hpath := ReflTransGen.mono (fun _ _ hstep => hcarry.anchored hstep) _ _ hpath
  refine ⟨keeper, index, .head ⟨parent, ?_, rfl⟩ hpath, hcarry.ownsBlock howner hsize,
    offset + start, ?_, ?_⟩
  · rw [payload_made_next]
    exact List.mem_singleton_self parent
  · rw [haddress, View.displaced_displaced]
    rfl
  · show offset + start + size ≤ (s.memory.block index).size
    omega

theorem payload_withBlock (s : State) (bytes : Bytes) (object : Ref) :
    (s.withBlock bytes).payload object = (s.made (.buffer {
      view := .sized (s.memory.allocate bytes).1 bytes.length
      ownership := .owned })).payload object := rfl

theorem carries_withBlock (s : State) (bytes : Bytes) : s.Carries (s.withBlock bytes) := by
  refine ⟨fun object hkind => ?_, fun index hsize => ?_⟩
  · rw [payload_withBlock, payload_made_old hkind]
    exact .refl _
  · exact congrArg ByteArray.size (Memory.block_allocate_old bytes (Memory.lt_of_size_ne_zero hsize))

theorem Sound.withBlock (hs : s.Sound) (hfits : s.memory.Fits bytes.length) :
    (s.withBlock bytes).Sound := by
  refine (carries_withBlock s bytes).sound hs fun object hkind => ?_
  by_cases hnext : object = s.heap.next
  · subst hnext
    intro address length hwindow hlength
    rw [payload_withBlock, payload_made_next] at hwindow
    cases hwindow
    have hne : bytes ≠ [] := fun hnil => hlength (congrArg List.length hnil)
    have hallocate := Memory.allocate_of_fits hfits hne
    have haddress : (s.memory.allocate bytes).1 = Memory.base s.memory.blocks.size := by rw [hallocate]
    have hsize : ((s.withBlock bytes).memory.block s.memory.blocks.size).size = bytes.length := by
      show ((s.memory.allocate bytes).2.block s.memory.blocks.size).size = bytes.length
      rw [hallocate, Memory.block_push_new, List.size_toByteArray]
    refine ⟨s.heap.next, s.memory.blocks.size, .refl, ⟨?_, ?_⟩, 0, ?_, ?_⟩
    · rw [payload_withBlock, payload_made_next]
      rfl
    · rw [payload_withBlock, payload_made_next, hsize, ← haddress]
      rfl
    · rw [View.displaced_zero]
      exact haddress
    · exact Nat.le_of_eq (by rw [hsize, Nat.zero_add])
  · refine backedVia_of_kind ?_
    unfold kind
    rw [payload_withBlock, payload_made_other hnext]
    exact hkind

theorem renews_stored {payload : Payload} (h : (s.payload object).Renews payload) (other : Ref) :
    (s.payload other).Renews ((s.stored object payload).payload other) := by
  by_cases hsame : other = object
  · subst hsame
    by_cases hin : s.heap.Contains other
    · rw [payload_stored_same hin]
      exact h
    · have hout : s.heap.payloads.size ≤ other.index := Nat.le_of_not_lt hin
      have hkeep : (s.stored other payload).payload other = s.payload other := by
        simp [State.payload, stored, Heap.get, Heap.set, Array.getD_eq_getD_getElem?, hout]
      rw [hkeep]
      exact .refl _
  · rw [payload_stored_other hsame]
    exact .refl _

theorem Sound.stored {payload : Payload} (hs : s.Sound) (h : (s.payload object).Renews payload) :
    (s.stored object payload).Sound := by
  have hrenews := renews_stored h
  refine Carries.sound ⟨fun other _ => hrenews other, fun _ _ => rfl⟩ hs fun other hkind => ?_
  intro address length hwindow
  rw [(hrenews other).window] at hwindow
  exact absurd (Payload.kind_of_window hwindow) hkind

-- ---------------------------------------------------------------------------
-- Exchanges
-- ---------------------------------------------------------------------------

/-- After an exchange, what an object looks at is kept exactly if what the other one looked at before
is kept by way of anchors of which each one that names either of the two means the other. -/
theorem backed_exchanged (ha : s.heap.Contains a) (hb : s.heap.Contains b) (object : Ref) :
    (s.exchanged a b).Backed (Equiv.swap a b object) ↔ s.BackedVia (Equiv.swap a b) object := by
  have hpayload (other : Ref) : (s.exchanged a b).payload (Equiv.swap a b other) = s.payload other := by
    rw [payload_exchanged ha hb, Equiv.swap_apply_self]
  have hforth {first second : Ref} (h : (s.exchanged a b).Anchored id first second) :
      s.Anchored (Equiv.swap a b) (Equiv.swap a b first) (Equiv.swap a b second) := by
    obtain ⟨anchor, hmem, rfl⟩ := h
    rw [payload_exchanged ha hb] at hmem
    exact ⟨anchor, hmem, rfl⟩
  have hback {first second : Ref} (h : s.Anchored (Equiv.swap a b) first second) :
      (s.exchanged a b).Anchored id (Equiv.swap a b first) (Equiv.swap a b second) := by
    obtain ⟨anchor, hmem, rfl⟩ := h
    refine ⟨anchor, ?_, (Equiv.swap_apply_self a b anchor).symm⟩
    rwa [hpayload]
  have howns {keeper : Ref} {index : Nat} :
      (s.exchanged a b).OwnsBlock (Equiv.swap a b keeper) index ↔ s.OwnsBlock keeper index := by
    constructor
    · rintro ⟨howns, hwindow⟩
      rw [hpayload] at howns hwindow
      exact ⟨howns, hwindow⟩
    · rintro ⟨howns, hwindow⟩
      exact ⟨by rwa [hpayload], by rwa [hpayload]⟩
  constructor
  · intro h address length hwindow hlength
    rw [← hpayload] at hwindow
    obtain ⟨keeper, index, hpath, howner, hinside⟩ := h address length hwindow hlength
    have hpath : ReflTransGen _ (Equiv.swap a b (Equiv.swap a b object)) (Equiv.swap a b keeper) :=
      ReflTransGen.lift (Equiv.swap a b) (fun _ _ hstep => hforth hstep) _ _ hpath
    rw [Equiv.swap_apply_self] at hpath
    refine ⟨Equiv.swap a b keeper, index, hpath, howns.mp ?_, hinside⟩
    rwa [Equiv.swap_apply_self]
  · intro h address length hwindow hlength
    rw [hpayload] at hwindow
    obtain ⟨keeper, index, hpath, howner, hinside⟩ := h address length hwindow hlength
    have hpath := ReflTransGen.lift (Equiv.swap a b) (fun _ _ hstep => hback hstep) _ _ hpath
    exact ⟨Equiv.swap a b keeper, index, hpath, howns.mpr howner, hinside⟩

/-- An exchange severs no view when every view is kept by way of the anchors as they then are. -/
def Spares (s : State) (a b : Ref) : Prop :=
  s.heap.Contains a ∧ s.heap.Contains b ∧ ∀ object, s.BackedVia (Equiv.swap a b) object

theorem Spares.sound (h : s.Spares a b) : (s.exchanged a b).Sound := by
  obtain ⟨ha, hb, hbacked⟩ := h
  intro object
  have := (backed_exchanged ha hb (Equiv.swap a b object)).mpr (hbacked _)
  rwa [Equiv.swap_apply_self] at this

/-- The views that are kept after an exchange. -/
theorem viewsKept_exchanged (ha : s.heap.Contains a) (hb : s.heap.Contains b) :
    (s.exchanged a b).ViewsKept ↔ ∀ object, ¬ (s.exchanged a b).Released (Equiv.swap a b object) →
      s.BackedVia (Equiv.swap a b) object := by
  rw [viewsKept_iff]
  constructor
  · intro h object hlive
    exact (backed_exchanged ha hb object).mp (h _ hlive)
  · intro h object hlive
    have hobject := h (Equiv.swap a b object) (by rwa [Equiv.swap_apply_self])
    rwa [← backed_exchanged ha hb, Equiv.swap_apply_self] at hobject

end State

end ObjectModel
