import Mathlib.Logic.Relation
import ObjectModel.Proofs.Comparison.Termination
import ObjectModel.Proofs.Comparison.Ties
import ObjectModel.Proofs.Memory.Access

/-!
# What comparisons look at

Objects are compared by what they hold: the items of lists, theirs, and so on, and the bytes that buffers
show. Where this is what it was (`Unchanged`), so is what comparisons find. Objects and blocks that are
made change nothing of it, if all that is looked at was made before (`Extends.unchanged`).
-/

namespace ObjectModel

open Relation

namespace Memory

/-- The address lies before those of the blocks that are still to be made. -/
def Placed (memory : Memory) (address : Address) : Prop :=
  address.toNat < (firstLane + memory.blocks.size) * lane

end Memory

-- ---------------------------------------------------------------------------
-- Views and buffers that show what they showed
-- ---------------------------------------------------------------------------

/-- A view shows in other memory what it shows. -/
def View.Same (memory after : Memory) : View → Prop
  | .sized address length => bytesAt after address length = bytesAt memory address length
  | .unsized address => ∀ length, bytesAt after address length = bytesAt memory address length

section Same

variable {memory after : Memory} {a b : View} {buffer : Buffer}

theorem View.Same.symm (h : a.Same memory after) : a.Same after memory := by
  cases a with
  | sized => exact Eq.symm h
  | unsized => exact fun length => (h length).symm

theorem View.Same.trans {later : Memory} (h : a.Same memory after) (h' : a.Same after later) :
    a.Same memory later := by
  cases a with
  | sized => exact Eq.trans h' h
  | unsized => exact fun length => (h' length).trans (h length)

theorem View.Same.alike (ha : a.Same memory after) (hb : b.Same memory after)
    (h : a.Alike memory b) : a.Alike after b := by
  cases a <;> cases b
  case sized.sized => exact ⟨h.1, Eq.trans ha (h.2.trans (Eq.symm hb))⟩
  case sized.unsized => exact Eq.trans ha (h.trans (hb _).symm)
  case unsized.sized => exact (ha _).trans (h.trans (Eq.symm hb))
  case unsized.unsized => exact h

theorem View.Same.shows (ha : a.Same memory after) (h : a.Shows memory bytes) : a.Shows after bytes := by
  cases a with
  | sized => exact ⟨h.1, Eq.trans ha h.2⟩
  | unsized => exact (ha _).trans h

theorem View.Same.textBytes? (h : buffer.view.Same memory after) :
    buffer.textBytes? after = buffer.textBytes? memory := by
  obtain ⟨view, ownership, anchors⟩ := buffer
  cases view with
  | sized => simp only [Buffer.textBytes?, Buffer.bytes?, View.bytes?, show bytesAt _ _ _ = _ from h]
  | unsized => rfl

theorem View.Same.text (h : buffer.view.Same memory after) : buffer.text after = buffer.text memory := by
  simp only [Buffer.text, h.textBytes?]

end Same

-- ---------------------------------------------------------------------------
-- Contents of objects
-- ---------------------------------------------------------------------------

namespace State

/-- An object is another, or lies in lists that lie in it. -/
def Within (s : State) : Ref → Ref → Prop := ReflTransGen s.Holds

/-- What is looked at when an object is compared is in another state what it was. -/
def Unchanged (s t : State) (key : Ref) : Prop :=
  ∀ o, s.Within o key → (t.payload o).seen? = (s.payload o).seen? ∧
    ∀ buffer, s.payload o = .buffer buffer → buffer.view.Same s.memory t.memory

/-- What is looked at when an object is compared was made. -/
def Readable (s : State) (key : Ref) : Prop :=
  ∀ o, s.Within o key → s.heap.Contains o ∧
    ∀ buffer, s.payload o = .buffer buffer → s.memory.Placed buffer.view.address

/-- Objects and blocks of memory were made, and those that were there are what they were. -/
structure Extends (s t : State) : Prop extends s.Keeps t where
  blocks : s.memory.blocks.size ≤ t.memory.blocks.size
  block : ∀ index < s.memory.blocks.size, t.memory.block index = s.memory.block index

variable {s t u : State} {key o left right : Ref}

theorem payload_of_seen {found : Payload} (h : (t.payload o).seen? = (s.payload o).seen?)
    (ho : s.payload o = found) (hseen : found.seen? = some found) : t.payload o = found := by
  rw [ho, hseen] at h
  cases hp : t.payload o <;> simp [hp] at h <;> exact h

theorem Unchanged.seen (h : s.Unchanged t key) : (t.payload key).seen? = (s.payload key).seen? :=
  (h key .refl).1

theorem Unchanged.same (h : s.Unchanged t key) (hkey : s.payload key = .buffer buffer) :
    buffer.view.Same s.memory t.memory := (h key .refl).2 buffer hkey

theorem Unchanged.item (h : s.Unchanged t key) (hkey : s.payload key = .list items) (ho : o ∈ items) :
    s.Unchanged t o := fun p hp => h p (hp.tail ⟨items, hkey, ho⟩)

theorem Readable.item (h : s.Readable key) (hkey : s.payload key = .list items) (ho : o ∈ items) :
    s.Readable o := fun p hp => h p (hp.tail ⟨items, hkey, ho⟩)

/-- An object that is no list is all that is looked at when it is compared. -/
theorem readable_of_single (hkey : s.kind key ≠ .list) (hmade : s.heap.Contains key)
    (hplaced : ∀ buffer, s.payload key = .buffer buffer → s.memory.Placed buffer.view.address) :
    s.Readable key := by
  intro o ho
  rcases ReflTransGen.cases_tail ho with rfl | ⟨p, -, items, hitems, -⟩
  · exact ⟨hmade, hplaced⟩
  · exact absurd (kind_of_payload hitems) hkey

theorem Unchanged.within (h : s.Unchanged t key) (ho : t.Within o key) : s.Within o key := by
  induction ho using ReflTransGen.head_induction_on with
  | refl => exact .refl
  | head hstep _ ih =>
    obtain ⟨items, hitems, hmem⟩ := hstep
    exact .head ⟨items, payload_of_seen (h _ ih).1.symm hitems rfl, hmem⟩ ih

theorem Unchanged.symm (h : s.Unchanged t key) : t.Unchanged s key := by
  intro o ho
  obtain ⟨hseen, hbuffer⟩ := h o (h.within ho)
  exact ⟨hseen.symm, fun buffer hb => (hbuffer buffer (payload_of_seen hseen.symm hb rfl)).symm⟩

theorem Unchanged.trans (h : s.Unchanged t key) (h' : t.Unchanged u key) : s.Unchanged u key := by
  intro o ho
  obtain ⟨hseen, hbuffer⟩ := h o ho
  obtain ⟨hseen', hbuffer'⟩ := h' o (h.symm.within ho)
  exact ⟨hseen'.trans hseen,
    fun buffer hb => (hbuffer buffer hb).trans (hbuffer' buffer (payload_of_seen hseen hb rfl))⟩

theorem Unchanged.nameBytes? (h : s.Unchanged t key) : t.nameBytes? key = s.nameBytes? key := by
  have hseen := h.seen
  cases hkey : s.payload key with
  | string text => simp [State.nameBytes?, payload_of_seen hseen hkey rfl, hkey]
  | buffer buffer =>
    simp only [State.nameBytes?, payload_of_seen hseen hkey rfl, hkey]
    exact (h.same hkey).textBytes?
  | _ =>
    rw [hkey] at hseen
    cases ht : t.payload key <;> simp [ht] at hseen <;> simp [State.nameBytes?, ht, hkey]

theorem Unchanged.readable (h : s.Unchanged t key) (hreadable : s.Readable key)
    (hsize : s.heap.size ≤ t.heap.size) (hblocks : s.memory.blocks.size ≤ t.memory.blocks.size) :
    t.Readable key := by
  intro o ho
  obtain ⟨hmade, hplaced⟩ := hreadable o (h.within ho)
  refine ⟨Nat.lt_of_lt_of_le hmade hsize, fun buffer hb => ?_⟩
  have hb := payload_of_seen (h o (h.within ho)).1.symm hb rfl
  exact Nat.lt_of_lt_of_le (hplaced buffer hb) (Nat.mul_le_mul_right _ (Nat.add_le_add_left hblocks _))

-- ---------------------------------------------------------------------------
-- Objects and blocks that are made
-- ---------------------------------------------------------------------------

theorem Extends.refl (s : State) : s.Extends s := ⟨.refl s, Nat.le_refl _, fun _ _ => rfl⟩

theorem Extends.trans (h : s.Extends t) (h' : t.Extends u) : s.Extends u where
  toKeeps := h.toKeeps.trans h'.toKeeps
  blocks := Nat.le_trans h.blocks h'.blocks
  block index hindex := (h'.block index (Nat.lt_of_lt_of_le hindex h.blocks)).trans (h.block index hindex)

theorem Grown.extends (h : s.Grown t note) : s.Extends t := by
  have hmemory : t.memory = s.memory := by rw [h.rest]
  exact ⟨h.keeps, by rw [hmemory], fun _ _ => by rw [hmemory]⟩

theorem Extends.thenMade (h : s.Extends t) (payload : Payload) : s.Extends (t.made payload) :=
  h.trans (Grown.made t payload).extends

theorem Extends.withHeld (h : s.Extends t) (held : List (List Ref)) : s.Extends (t.withHeld held) :=
  ⟨h.toKeeps.held held, h.blocks, h.block⟩

theorem Extends.unheld {held : List (List Ref)} (h : (s.withHeld held).Extends t)
    (others : List (List Ref)) : s.Extends (t.withHeld others) :=
  ⟨⟨h.nothing, h.kept, h.size⟩, h.blocks, h.block⟩

theorem extends_withBlock (s : State) (bytes : Bytes) : s.Extends (s.withBlock bytes) := by
  refine ⟨keeps_withBlock s bytes, ?_, ?_⟩
  · show s.memory.blocks.size ≤ (s.memory.allocate bytes).2.blocks.size
    unfold Memory.allocate
    split <;> simp [Memory.push]
  · exact fun index hindex => Memory.block_allocate_old bytes hindex

theorem Extends.read_eq (h : s.Extends t) {address : Address} (hplaced : s.memory.Placed address)
    (length : Nat) : t.memory.read address length = s.memory.read address length := by
  have hlanes : address.toNat / Memory.lane < Memory.firstLane + s.memory.blocks.size :=
    Nat.div_lt_of_lt_mul (by rwa [Nat.mul_comm])
  have hlocate : t.memory.locate? address = s.memory.locate? address := by
    simp only [Memory.locate?, hlanes, Nat.lt_of_lt_of_le hlanes (Nat.add_le_add_left h.blocks _)]
  unfold Memory.read
  rw [hlocate]
  cases hfound : s.memory.locate? address with
  | none => rfl
  | some found =>
    obtain ⟨-, -, hindex⟩ := Memory.locate?_eq_some_iff.mp hfound
    simp only [h.block _ hindex]

theorem Extends.same (h : s.Extends t) {view : View} (hplaced : s.memory.Placed view.address) :
    view.Same s.memory t.memory := by
  have hbytes (length : Nat) :
      View.bytesAt t.memory view.address length = View.bytesAt s.memory view.address length := by
    simp only [View.bytesAt, h.read_eq hplaced]
  cases view with
  | sized address length => exact hbytes length
  | unsized address => exact hbytes

theorem Extends.unchanged (h : s.Extends t) (hreadable : s.Readable key) : s.Unchanged t key :=
  fun o ho => ⟨by rw [h.kept o (hreadable o ho).1], fun buffer hb => h.same ((hreadable o ho).2 buffer hb)⟩

theorem Extends.readable (h : s.Extends t) (hreadable : s.Readable key) : t.Readable key :=
  (h.unchanged hreadable).readable hreadable h.size h.blocks

end State

end ObjectModel
